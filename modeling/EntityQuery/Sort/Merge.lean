import EntityQuery.Index
import EntityQuery.Memory

/-!
# Merged orders

A sort index keeps its records ordered by value, in one partition for each provider. Ordering by
such a value means merging the providers, either one after the other or by value. The merged order
lists each key at its first occurrence. It does not depend on a filter, it is computed at most once,
and its outcome may be reported to the cache.
-/

namespace EntityQuery

/-- A sorted value with the key that has it. -/
structure SortedRecord where
  value : Int
  key : Nat
  deriving DecidableEq, Repr

/-- One partition of a sort index at some version. -/
structure RecordProvider where
  id : IndexId
  version : Nat
  /-- The records by value, and by key among equal values. -/
  records : List SortedRecord

namespace RecordProvider

/-- Whether a record comes no later than another. -/
def inOrder (a b : SortedRecord) : Bool :=
  decide (a.value < b.value ∨ a.value = b.value ∧ a.key ≤ b.key)

/-- The first version of a partition. -/
def ofRecords (id : IndexId) (records : List SortedRecord) : RecordProvider where
  id := id
  version := 1
  records := records.mergeSort inOrder

/-- The next version of the same partition. -/
def next (p : RecordProvider) (records : List SortedRecord) : RecordProvider where
  id := p.id
  version := Word.wrap (p.version + 1)
  records := records.mergeSort inOrder

/-- What identifies the version. -/
def digest (p : RecordProvider) : Digest := snapshotDigest p.id p.version

end RecordProvider

/-- The direction of an order. -/
inductive Direction where
  | ascending
  | descending
  deriving DecidableEq, Repr

/-- How providers are merged. -/
inductive MergeMode where
  /-- One provider after the other. -/
  | appendFirst
  /-- By value. -/
  | interleave
  deriving DecidableEq, Repr

namespace Direction

/-- The number of a direction in digests. -/
def tag : Direction → Nat
  | ascending => 1
  | descending => 2

/-- The name of a direction. -/
def name : Direction → String
  | ascending => "Asc"
  | descending => "Desc"

/-- A sequence in a direction. -/
def arrange (direction : Direction) (records : List SortedRecord) : List SortedRecord :=
  match direction with
  | ascending => records
  | descending => records.reverse

/-- What values are compared by. -/
def weight (direction : Direction) (value : Int) : Int :=
  match direction with
  | ascending => value
  | descending => -value

/-- Whether a record is taken before another one when both come next. -/
def precedes (direction : Direction) (a b : SortedRecord) : Bool :=
  RecordProvider.inOrder ⟨direction.weight a.value, a.key⟩ ⟨direction.weight b.value, b.key⟩

/-- Arranging records keeps all of them. -/
theorem mem_arrange {direction : Direction} {records : List SortedRecord} {r : SortedRecord} :
    r ∈ direction.arrange records ↔ r ∈ records := by
  cases direction <;> simp [arrange]

end Direction

namespace MergeMode

/-- The number of a mode in digests. -/
def tag : MergeMode → Nat
  | appendFirst => 1
  | interleave => 2

/-- The name of a mode. -/
def name : MergeMode → String
  | appendFirst => "AppendFirst"
  | interleave => "Interleave"

/-- The records of all providers. Interleaving takes, as long as there is one, the least of the
records that come next in their providers, and the one of the earlier provider among equals. -/
def merge (mode : MergeMode) (direction : Direction) (providers : List RecordProvider) :
    List SortedRecord :=
  let runs := providers.map fun p => direction.arrange p.records
  match mode with
  | appendFirst => runs.flatten
  | interleave => runs.foldr (fun run merged => run.merge merged direction.precedes) []

/-- Merging keeps the records of all providers and adds none. -/
theorem mem_merge {mode : MergeMode} {direction : Direction} {providers : List RecordProvider}
    {r : SortedRecord} :
    r ∈ mode.merge direction providers ↔ ∃ p ∈ providers, r ∈ p.records := by
  cases mode with
  | appendFirst =>
    simp only [merge, List.mem_flatten, List.mem_map]
    grind [Direction.mem_arrange]
  | interleave =>
    simp only [merge]
    induction providers with
    | nil => simp
    | cons p rest ih => simp [List.mem_merge, ih, Direction.mem_arrange]

end MergeMode

/-- A merged order of providers. -/
structure MergedRecords where
  id : NodeId
  providers : List RecordProvider
  mode : MergeMode
  direction : Direction
  /-- What the order is made of, whatever the versions that it reads. -/
  digest : Digest
  /-- What identifies the versions that the order reads. -/
  snapshotsDigest : Digest
  /-- The estimated cost of merging. -/
  cost : Nat
  /-- Who is told of the outcome. -/
  observer : Option Observer
  result : Thunk (List Nat)

namespace MergedRecords

/-- The cost of one record at one level of the merge. -/
def costPerRecord : Nat := 16

/-- The number of binary digits of a number, and one for zero. -/
def binaryDigits (n : Nat) : Nat := if n = 0 then 1 else n.log2 + 1

/-- The keys of all providers in merged order. -/
def mergedKeys (mode : MergeMode) (direction : Direction) (providers : List RecordProvider) :
    List Nat :=
  firstOccurrences ((mode.merge direction providers).map (·.key))

/-- The merged order of providers. When they are interleaved, the order in which they are listed
does not identify the merged order. -/
def ofProviders (providers : List RecordProvider) (mode : MergeMode) (direction : Direction) :
    Run MergedRecords := do
  let ids := providers.map fun p => Digest.word p.id
  let total := providers.foldl (fun n p => n + p.records.length) 0
  return {
    id := ← Memory.newId
    providers
    mode
    direction
    digest := .tagged 0x30 <| .word mode.tag :: .word direction.tag ::
      match mode with
      | .appendFirst => Digest.orderedPart ids
      | .interleave => Digest.unorderedPart ids
    snapshotsDigest := .unordered (providers.map RecordProvider.digest)
    cost := Word.satMul (Word.satMul total (binaryDigits providers.length)) costPerRecord
    observer := none
    result := Thunk.mk fun _ => mergedKeys mode direction providers }

/-- The name of the way of merging. -/
def name (r : MergedRecords) : String := r.mode.name ++ r.direction.name

/-- Whether the order has been computed. -/
def isComputed (r : MergedRecords) (m : Memory) : Bool := m.isComputed r.id

/-- The bytes that an order is taken to occupy in a cache. -/
def footprint (order : List Nat) : Nat := 16 + order.length * 4

/-- What the merge reports. -/
def outcome (r : MergedRecords) : Computed where
  cost := r.cost
  size := footprint r.result.get
  snapshots := r.snapshotsDigest
  payload := .sorted r.result.get

/-- The memory after the order was computed. -/
def visit (r : MergedRecords) (m : Memory) : Memory :=
  if r.isComputed m then m else (m.report r.observer r.outcome).markComputed r.id

/-- Computes the order. -/
def compute (r : MergedRecords) : Run (List Nat) := do
  modify r.visit
  return r.result.get

/-- The order as one that has been computed already, with a given result. -/
def replaying (r : MergedRecords) (order : List Nat) : Run MergedRecords := do
  let id ← Memory.newId
  modify (·.markComputed id)
  return { r with id, observer := none, result := Thunk.pure order }

/-- The order with an observer. It is merged anew from its providers, also where `r` has been
computed or replays a result. -/
def observedBy (r : MergedRecords) (observer : Observer) : Run MergedRecords := do
  return { r with
    id := ← Memory.newId
    observer := some observer
    result := Thunk.mk fun _ => mergedKeys r.mode r.direction r.providers }

/-- The order as a result: itself where it is one already, and else one that replays the result,
which is computed now. -/
def toCachedForm (r : MergedRecords) : Run MergedRecords := do
  if r.isComputed (← get) && r.observer.isNone then return r
  else r.replaying (← r.compute)

end MergedRecords

end EntityQuery
