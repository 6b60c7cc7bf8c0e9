import EntityQuery.Cache.Entry
import EntityQuery.Options

/-!
# The table of a cache

The table knows each computation by its key. A computation is an adept while it is only followed,
and a cached record once it was promoted. Looking a computation up counts as a use of it, unless its
record holds a result for other snapshots: such a record is left to cool off.

When more adepts are in the table than its options allow, the lookup that added one asks for an
early sweep. Until the next sweep no other lookup asks again.
-/

namespace EntityQuery

/-- How a computation stands in the table. -/
inductive Slot where
  | adept (entry : EntryId)
  | cached (entry : EntryId)
  deriving DecidableEq, Repr

namespace Slot

/-- The entry of a slot. -/
def entry : Slot → EntryId
  | adept e => e
  | cached e => e

/-- Whether the computation is only followed. -/
def isAdept : Slot → Bool
  | adept _ => true
  | cached _ => false

end Slot

/-- The counters that a table shows. Hits, misses and sweeps are counted one at a time in whole
words, which no run lives long enough to fill, so they have no bound here. -/
structure Statistics where
  hits : Nat := 0
  misses : Nat := 0
  records : Nat := 0
  adepts : Nat := 0
  usedBytes : Nat := 0
  sweeps : Nat := 0
  deriving DecidableEq, Repr, Inhabited

/-- The counters with their names. -/
def Statistics.counters (s : Statistics) : List (String × Nat) :=
  [("hits", s.hits), ("misses", s.misses), ("records", s.records), ("adepts", s.adepts),
    ("usedBytes", s.usedBytes), ("sweeps", s.sweeps)]

/-- The table of a cache. -/
structure Table where
  options : CacheOptions
  slots : List (Digest × Slot) := []
  statistics : Statistics := {}
  /-- Whether an early sweep was asked for and has not been run. -/
  pending : Bool := false

/-- What the table says of a computation. -/
inductive Lookup where
  /-- Here is its result. -/
  | hit (payload : Payload)
  /-- It was promoted and waits for its result. -/
  | record (entry : EntryId)
  /-- It is being followed. -/
  | adept (entry : EntryId)
  /-- Its result was computed from other snapshots. -/
  | stale

/-- A lookup with everything that it changed. -/
structure Consultation where
  answer : Lookup
  /-- Whether this lookup asked for an early sweep. -/
  schedule : Bool
  table : Table
  entries : Entries

namespace Table

/-- The table with one more hit. -/
def countHit (t : Table) : Table :=
  { t with statistics := { t.statistics with hits := t.statistics.hits + 1 } }

/-- The table with one more miss. -/
def countMiss (t : Table) : Table :=
  { t with statistics := { t.statistics with misses := t.statistics.misses + 1 } }

/-- The table with a new adept. -/
def insertAdept (t : Table) (key : Digest) (entry : EntryId) : Table :=
  { t with
    slots := (key, .adept entry) :: t.slots
    statistics := { t.statistics with adepts := t.statistics.adepts + 1 } }

/-- Whether a lookup that has just added an adept asks for an early sweep. -/
def asksForSweep (t : Table) : Bool :=
  t.options.anteroomLimit < t.statistics.adepts && !t.pending

/-- What a slot says of a computation over some snapshots. -/
def classify (t : Table) (entries : Entries) (slot : Slot) (snapshots : Digest) :
    Lookup × Table × Entries :=
  match slot with
  | .adept e => (.adept e, t.countMiss, entries.modify e Entry.use)
  | .cached e =>
    match entries[e]? with
    | none => (.stale, t.countMiss, entries)
    | some entry =>
      match entry.payloadFor snapshots with
      | some payload => (.hit payload, t.countHit, entries.modify e Entry.use)
      | none =>
        if entry.payload.isSome then (.stale, t.countMiss, entries)
        else (.record e, t.countMiss, entries.modify e Entry.use)

/-- Looks a computation up, and begins to follow it when it is new. -/
def lookup (t : Table) (entries : Entries) (key : Digest) (kind : RecordKind)
    (snapshots : Digest) : Consultation :=
  match t.slots.lookup key with
  | some slot =>
    let r := t.classify entries slot snapshots
    { answer := r.1, schedule := false, table := r.2.1, entries := r.2.2 }
  | none =>
    let id := entries.size
    let r := (t.insertAdept key id).classify (entries.push { kind, key }) (.adept id) snapshots
    let schedule := r.2.1.asksForSweep
    { answer := r.1
      schedule
      table := { r.2.1 with pending := r.2.1.pending || schedule }
      entries := r.2.2 }

/-- Telling how a computation stands moves no slot. -/
theorem slots_classify (t : Table) (entries : Entries) (slot : Slot) (snapshots : Digest) :
    (t.classify entries slot snapshots).2.1.slots = t.slots := by
  unfold classify countHit countMiss
  grind

/-- A lookup leaves what is followed under other keys alone. -/
theorem slots_lookup_of_ne {t : Table} {key other : Digest} (h : other ≠ key) (entries : Entries)
    (kind : RecordKind) (snapshots : Digest) :
    (t.lookup entries key kind snapshots).table.slots.lookup other = t.slots.lookup other := by
  unfold lookup
  split
  · rw [slots_classify]
  · dsimp only
    rw [slots_classify, insertAdept, List.lookup_cons, beq_false_of_ne h]

end Table

end EntityQuery
