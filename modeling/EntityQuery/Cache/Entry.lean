import EntityQuery.Cache.Payload
import EntityQuery.Digest
import EntityQuery.Error

/-!
# Bookkeeping of one computation

An entry follows one computation through the cache. It begins when the computation is first looked
up: from then on its uses are counted, and its first run tells what it costs and how large its
result is. Once the computation is found worth caching, its next run leaves its result in the entry,
and the first result that is left stays.
-/

namespace EntityQuery

/-- The bytes charged for a record on top of its payload. -/
def recordOverhead : Nat := 64

/-- What a record is worth for its size: the cost saved by the uses beyond a threshold for each
byte. A saving that is no word counts as the largest ratio. -/
def spaceToPerformance (uses threshold cost size : Nat) : Nat :=
  let saved := (uses - threshold) * cost
  if Word.max < saved then Word.max else saved / max size 1

/-- More uses never lower the ratio. -/
theorem spaceToPerformance_mono {m n : Nat} (h : m ≤ n) (threshold cost size : Nat) :
    spaceToPerformance m threshold cost size ≤ spaceToPerformance n threshold cost size := by
  have saved : (m - threshold) * cost ≤ (n - threshold) * cost :=
    Nat.mul_le_mul_right _ (by omega)
  simp only [spaceToPerformance]
  split <;> split
  · exact Nat.le_refl _
  · omega
  · exact Nat.le_trans (Nat.div_le_self _ _) (by omega)
  · exact Nat.div_le_div_right saved

/-- Counters of the uses of a computation. Uses are counted one at a time in whole words, which no
run lives long enough to fill, so their counters have no bound here. The counter of idle sweeps is a
word of half the width and starts over after the largest one. -/
structure Usage where
  /-- All uses. -/
  times : Nat := 0
  /-- The uses since the last sweep that looked. -/
  sinceSweep : Nat := 0
  /-- How many sweeps in a row have found no use, as a word of half the width. -/
  cooling : Nat := 0
  deriving DecidableEq, Repr, Inhabited

namespace Usage

/-- Counts one use. -/
def use (u : Usage) : Usage := { u with times := u.times + 1, sinceSweep := u.sinceSweep + 1 }

/-- What a sweep leaves: without a use since the last one the computation cools further. -/
def sweep (u : Usage) : Usage :=
  { u with
    sinceSweep := 0
    cooling := if u.sinceSweep = 0 then HalfWord.wrap (u.cooling + 1) else 0 }

/-- A sweep begins to count uses anew. -/
@[simp] theorem sinceSweep_sweep (u : Usage) : u.sweep.sinceSweep = 0 := rfl

/-- How many sweeps in a row have found no use, as the sweep that looks now is told. Unlike the
counter that it leaves, this number stops at the largest one. -/
def idle (u : Usage) : Nat := if u.sinceSweep = 0 then HalfWord.satAdd u.cooling 1 else 0

/-- A sweep is told of idleness exactly where there was no use since the last one. -/
theorem idle_pos_iff {u : Usage} : 0 < u.idle ↔ u.sinceSweep = 0 := by
  by_cases hunused : u.sinceSweep = 0
  · rw [idle, if_pos hunused]
    exact iff_of_true (Nat.lt_min.2 ⟨Nat.succ_pos _, by decide⟩) hunused
  · rw [idle, if_neg hunused]
    exact iff_of_false (Nat.lt_irrefl 0) hunused

/-- Where a sweep leaves a counter that is not zero, there was no use since the last one. -/
theorem sinceSweep_eq_zero_of_sweep {u : Usage} (h : 0 < u.sweep.cooling) : u.sinceSweep = 0 :=
  Decidable.by_contra fun hused => absurd h (by simp [sweep, hused])

end Usage

/-- What the first run of a computation told. -/
structure Metrics where
  /-- The cost that a use of the result saves. -/
  cost : Nat
  /-- The size of the result with the overhead of a record. -/
  size : Nat
  deriving DecidableEq, Repr, Inhabited

/-- What a run of a computation reports. -/
structure Computed where
  cost : Nat
  size : Nat
  /-- The snapshots that were read. -/
  snapshots : Digest
  payload : Payload

/-- The bookkeeping of one computation. -/
structure Entry where
  kind : RecordKind
  key : Digest
  usage : Usage := {}
  metrics : Option Metrics := none
  /-- The result that was left, with the snapshots it was computed from. -/
  payload : Option (Digest × Payload) := none

namespace Entry

/-- Counts one use. -/
def use (e : Entry) : Entry := { e with usage := e.usage.use }

/-- What a sweep leaves of the counters. -/
def sweep (e : Entry) : Entry := { e with usage := e.usage.sweep }

/-- Takes down cost and size, if it is the first time. -/
def measure (e : Entry) (cost size : Nat) : Entry :=
  { e with metrics := e.metrics.or (some ⟨cost, Word.wrap (size + recordOverhead)⟩) }

/-- Takes down a result, if it is the first one. -/
def record (e : Entry) (snapshots : Digest) (payload : Payload) : Entry :=
  { e with payload := e.payload.or (some (snapshots, payload)) }

/-- A result that was left stays, whatever is reported later. -/
theorem payload_record {e : Entry} {p : Digest × Payload} (h : e.payload = some p)
    (snapshots : Digest) (payload : Payload) : (e.record snapshots payload).payload = some p := by
  simp [record, h]

/-- The ratio of the entry, once it has been measured. -/
def ratio? (e : Entry) (threshold : Nat) : Option Nat :=
  e.metrics.map fun m => spaceToPerformance e.usage.times threshold m.cost m.size

/-- The size of the entry, or zero before it has been measured. -/
def size (e : Entry) : Nat := e.metrics.elim 0 (·.size)

/-- The result, if it was computed from these snapshots. -/
def payloadFor (e : Entry) (snapshots : Digest) : Option Payload :=
  match e.payload with
  | some (recorded, payload) => if recorded = snapshots then some payload else none
  | none => none

/-- What is given for some snapshots is the result that was computed from them. -/
theorem payloadFor_eq_some_iff {e : Entry} {snapshots : Digest} {payload : Payload} :
    e.payloadFor snapshots = some payload ↔ e.payload = some (snapshots, payload) := by
  unfold payloadFor
  split
  · rename_i recorded payload' heq
    rw [heq]
    simp
  · rename_i heq
    simp [heq]

/-- The result, which has to be there. -/
def recordedPayload (e : Entry) : Except Error Payload :=
  match e.payload with
  | some (_, payload) => .ok payload
  | none => .error (.payloadMissing e.key)

end Entry

/-- The place of an entry among all entries. -/
abbrev EntryId : Type := Nat

/-- All entries there ever were, in the order in which they began. -/
abbrev Entries : Type := Array Entry

/-- Who is told of the first run of a computation. -/
inductive Observer where
  /-- An entry that is to be measured. -/
  | adept (entry : EntryId)
  /-- An entry that is to keep the result. -/
  | recording (entry : EntryId)
  deriving DecidableEq, Repr

namespace Observer

/-- The entry that is told. -/
def entry : Observer → EntryId
  | adept e => e
  | recording e => e

/-- The entry that is held for measuring. -/
def adept? : Observer → Option EntryId
  | adept e => some e
  | recording _ => none

/-- Passes a report on. -/
def report (o : Observer) (computed : Computed) (entries : Entries) : Entries :=
  match o with
  | adept e => entries.modify e (·.measure computed.cost computed.size)
  | recording e => entries.modify e (·.record computed.snapshots computed.payload)

end Observer

end EntityQuery
