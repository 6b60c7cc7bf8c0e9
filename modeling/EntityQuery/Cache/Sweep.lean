import EntityQuery.Cache.Table

/-!
# Sweeping a cache

A sweep decides which computations the cache keeps. Records that were not used for too many sweeps
expire, which only a periodic sweep looks at. The other records, and the adepts that were measured
and are worth it, are ranked by their ratio and admitted from the top as long as they fit the
budget. Admitted adepts are promoted, records that do not fit are evicted, and adepts that were not
promoted, were not used since the last sweep and are held by nobody are discarded.

A sweep is written as one verdict for each slot, so it does not depend on the order of the slots. It
judges the entries as it finds them, with what `Usage.idle` tells of them, and leaves them with the
counters reset.
-/

namespace EntityQuery

/-- What gave rise to a sweep. -/
inductive SweepKind where
  /-- The passing of time. Counts toward the expiry of records. -/
  | periodic
  /-- Too many adepts. Leaves the counters of records alone. -/
  | anteroom
  deriving DecidableEq, Repr

/-- What a sweep does with a slot. -/
inductive Verdict where
  | keep
  | promote
  | evict
  | expire
  | discard
  deriving DecidableEq, Repr

/-- The outcome of a sweep. -/
structure SweepReport where
  promoted : Nat
  evicted : Nat
  expired : Nat
  discarded : Nat
  records : Nat
  adepts : Nat
  usedBytes : Nat
  deriving DecidableEq, Repr, Inhabited

/-- The numbers of a report with their names. -/
def SweepReport.counters (r : SweepReport) : List (String × Nat) :=
  [("promoted", r.promoted), ("evicted", r.evicted), ("expired", r.expired),
    ("discarded", r.discarded), ("records", r.records), ("adepts", r.adepts),
    ("usedBytes", r.usedBytes)]

/-- A computation that competes for room in the cache. -/
structure Candidate where
  key : Digest
  entry : EntryId
  ratio : Nat
  size : Nat
  deriving DecidableEq, Repr

namespace Candidate

/-- Whether a candidate is ranked no later than another: by higher ratio, then by smaller key. -/
def ranksBefore (a b : Candidate) : Bool :=
  b.ratio < a.ratio || (a.ratio == b.ratio && Digest.le a.key b.key)

end Candidate

/-- The candidates that were let in so far, and the bytes that they take. -/
structure Admission where
  usedBytes : Nat := 0
  entries : List EntryId := []
  deriving DecidableEq, Repr

namespace Admission

/-- Lets a candidate in if it fits the budget. -/
def letIn (budget : Nat) (a : Admission) (c : Candidate) : Admission :=
  if Word.satAdd a.usedBytes c.size ≤ budget then
    { usedBytes := Word.wrap (a.usedBytes + c.size), entries := c.entry :: a.entries }
  else a

/-- Lets in all that fit, from the highest rank down. -/
def ofCandidates (budget : Nat) (candidates : List Candidate) : Admission :=
  (candidates.mergeSort Candidate.ranksBefore).foldl (letIn budget) {}

end Admission

/-- Whether an adept is worth being promoted: it was measured, is small enough, and its ratio is
high enough. -/
def Entry.isWorth (options : CacheOptions) (e : Entry) : Bool :=
  e.metrics.any fun m => m.size ≤ options.maxRecordSize
    && options.minimalRatio < spaceToPerformance e.usage.times options.minimalUsage m.cost m.size

namespace Table

/-- Whether a sweep resets the counters of a slot. -/
def resetsUsage (kind : SweepKind) (slot : Slot) : Bool := slot.isAdept || kind == .periodic

/-- The entries with the counters reset that the sweep looks at. -/
def resetEntries (t : Table) (kind : SweepKind) (entries : Entries) : Entries :=
  t.slots.foldl (fun entries s =>
    if resetsUsage kind s.2 then entries.modify s.2.entry Entry.sweep else entries) entries

/-- Whether a periodic sweep removes a record because it has been idle for too long. -/
def isExpired (t : Table) (kind : SweepKind) (entry : Entry) : Bool :=
  kind == .periodic && t.options.coolEnough < entry.usage.idle

/-- Whether a sweep finds an adept idle. Of an adept that is worth being promoted it reads the
counter that it leaves, which may have started over. -/
def isIdle (t : Table) (entry : Entry) : Bool :=
  if entry.isWorth t.options then 0 < entry.usage.sweep.cooling else 0 < entry.usage.idle

/-- The slot as a candidate, where it is one. -/
def candidate? (t : Table) (kind : SweepKind) (entries : Entries) (key : Digest) (slot : Slot) :
    Option Candidate := do
  let entry ← entries[slot.entry]?
  let metrics ← entry.metrics
  let ratio ← entry.ratio? t.options.minimalUsage
  match slot with
  | .cached e => if t.isExpired kind entry then none else some ⟨key, e, ratio, metrics.size⟩
  | .adept e => if entry.isWorth t.options then some ⟨key, e, ratio, metrics.size⟩ else none

/-- What becomes of a slot. `held` tells which adepts somebody else than the table still holds. -/
def verdict (t : Table) (kind : SweepKind) (held : EntryId → Bool) (entries : Entries)
    (admission : Admission) (slot : Slot) : Verdict :=
  match slot, entries[slot.entry]? with
  | .cached e, some entry =>
    if t.isExpired kind entry then .expire
    else if admission.entries.contains e then .keep else .evict
  | .adept e, some entry =>
    if admission.entries.contains e then .promote
    else if t.isIdle entry && !held e then .discard else .keep
  | _, none => .keep

/-- A slot after its verdict. -/
def applyVerdict (slot : Slot) : Verdict → Option Slot
  | .keep => some slot
  | .promote => some (.cached slot.entry)
  | .evict | .expire | .discard => none

/-- Sweeps the table. `held` tells which adepts somebody else than the table still holds. -/
def sweep (t : Table) (kind : SweepKind) (held : EntryId → Bool) (entries : Entries) :
    SweepReport × Table × Entries :=
  let candidates := t.slots.filterMap fun s => t.candidate? kind entries s.1 s.2
  let admission := Admission.ofCandidates t.options.cacheSize candidates
  let judged := t.slots.map fun s => (s, t.verdict kind held entries admission s.2)
  let count (v : Verdict) : Nat := judged.countP (·.2 == v)
  let adepts := t.statistics.adepts - count .promote - count .discard
  let report : SweepReport :=
    { promoted := count .promote
      evicted := count .evict
      expired := count .expire
      discarded := count .discard
      records := admission.entries.length
      adepts
      usedBytes := admission.usedBytes }
  let statistics : Statistics :=
    { hits := if kind = .periodic then 0 else t.statistics.hits
      misses := if kind = .periodic then 0 else t.statistics.misses
      records := report.records
      adepts
      usedBytes := report.usedBytes
      sweeps := t.statistics.sweeps + 1 }
  let slots := judged.filterMap fun j => (applyVerdict j.1.2 j.2).map (j.1.1, ·)
  (report, { t with slots, statistics, pending := false }, t.resetEntries kind entries)

end Table

end EntityQuery
