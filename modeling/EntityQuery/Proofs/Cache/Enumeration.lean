import EntityQuery.Proofs.Cache.Admission

/-!
# The order of enumeration

The slots of a table are listed in some order, and a sweep goes through them in that order. Another
order makes no difference. Slots have different keys, so what is found under a key does not depend
on their order, and neither does the ranking of what competes for room. States that are the same but
for the order of their slots (`TableState.Reordered`) stay so by any event, and a sweep reports the
same of them (`TableState.Consistent.next_reorder`, `TableState.Consistent.report_reorder`).

So the slots may be reordered at any time in a run (`TableState.Arises`), and the state is the one
that the run leads to otherwise (`TableState.Arises.reordered`). What a sweep leaves and reports is
settled by the table, and where it makes a record of one slot and not of a better one, it does so
because the latter is larger (`TableState.sweep_settled`).
-/

namespace EntityQuery

/-- What a sweep reports: how often each verdict was passed, and what was let in. -/
theorem Table.report_sweep (t : Table) (kind : SweepKind) (held : EntryId → Bool)
    (entries : Entries) :
    let count (v : Verdict) : ℕ := (t.slots.map fun p => t.judge kind held entries p.2).count v
    (t.sweep kind held entries).1 =
      { promoted := count .promote
        evicted := count .evict
        expired := count .expire
        discarded := count .discard
        records := (t.admission kind entries).entries.length
        adepts := t.statistics.adepts - count .promote - count .discard
        usedBytes := (t.admission kind entries).usedBytes } := by
  intro count
  have hcount (v : Verdict) :
      (t.slots.map fun p => (p, t.judge kind held entries p.2)).countP (·.2 == v) = count v := by
    show _ = List.count v (t.slots.map fun p => t.judge kind held entries p.2)
    rw [List.countP_map, List.count_eq_countP, List.countP_map]
    rfl
  simp only [← hcount]
  rfl

/-- What the statistics show after a sweep: what it reports. -/
theorem Table.statistics_sweep (t : Table) (kind : SweepKind) (held : EntryId → Bool)
    (entries : Entries) :
    let report := (t.sweep kind held entries).1
    (t.sweep kind held entries).2.1.statistics =
      { hits := if kind = .periodic then 0 else t.statistics.hits
        misses := if kind = .periodic then 0 else t.statistics.misses
        records := report.records
        adepts := report.adepts
        usedBytes := report.usedBytes
        sweeps := t.statistics.sweeps + 1 } := rfl

namespace TableState

/-- The state with its slots listed in another order. -/
def reorder (s : TableState) (slots : List (Digest × Slot)) : TableState :=
  { s with table := { s.table with slots } }

/-- Two states that are the same but for the order in which their slots are listed. -/
structure Reordered (s s' : TableState) : Prop where
  /-- The slots are the same, up to their order. -/
  slots : s'.table.slots.Perm s.table.slots
  /-- The options are the same. -/
  options : s'.table.options = s.table.options
  /-- The counters are the same. -/
  statistics : s'.table.statistics = s.table.statistics
  /-- An early sweep was asked for in both or in neither. -/
  pending : s'.table.pending = s.table.pending
  /-- The entries are the same. -/
  entries : s'.entries = s.entries
  /-- So are the handles. -/
  handles : s'.handles = s.handles

variable {s s' : TableState} {slots : List (Digest × Slot)} {number : ℕ}

/-- A state is a reordering of itself. -/
theorem Reordered.refl (s : TableState) : s.Reordered s := ⟨.refl _, rfl, rfl, rfl, rfl, rfl⟩

/-- Another order is all that was changed. -/
theorem Reordered.eq_reorder (h : s.Reordered s') : s' = s.reorder s'.table.slots := by
  obtain ⟨⟨options, slots, statistics, pending⟩, entries, handles⟩ := s'
  obtain ⟨-, hoptions, hstatistics, hpending, hentries, hhandles⟩ := h
  dsimp only at hoptions hstatistics hpending hentries hhandles
  rw [hoptions, hstatistics, hpending, hentries, hhandles]
  rfl

/-- A consistent table is so in any order of its slots. -/
theorem Consistent.reorder (h : s.Consistent) (hperm : slots.Perm s.table.slots) :
    (s.reorder slots).Consistent where
  nodup_keys := (hperm.map _).nodup_iff.2 h.nodup_keys
  nodup_entries := (hperm.map _).nodup_iff.2 h.nodup_entries
  suits := fun p hp => h.suits p (hperm.mem_iff.1 hp)
  handle_lt := h.handle_lt
  recording := fun p hp hrecording key hmem =>
    h.recording p hp hrecording key (hperm.mem_iff.1 hmem)

/-- What is found under a key does not depend on the order. -/
theorem Consistent.find_reorder (h : s.Consistent) (hperm : slots.Perm s.table.slots)
    (key : Digest) : slots.lookup key = s.table.slots.lookup key := by
  refine Option.ext fun slot => ?_
  have hreordered : (s.reorder slots).slot? key = some slot ↔ (key, slot) ∈ slots :=
    (h.reorder hperm).slot?_eq_some_iff
  exact hreordered.trans (hperm.mem_iff.trans h.slot?_eq_some_iff.symm)

/-! ## Sweeps -/

/-- A sweep resets the same counters in any order. -/
theorem Consistent.resetEntries_reorder (h : s.Consistent) (hperm : slots.Perm s.table.slots)
    (kind : SweepKind) :
    (s.reorder slots).table.resetEntries kind s.entries
      = s.table.resetEntries kind s.entries := by
  refine Array.ext_getElem? fun i => ?_
  rw [Table.getElem?_resetEntries (h.reorder hperm).nodup_entries,
    Table.getElem?_resetEntries h.nodup_entries]
  simp only [TableState.reorder, hperm.mem_iff]

/-- A sweep lets the same contenders in, in any order. -/
theorem Consistent.admission_reorder (h : s.Consistent) (hperm : slots.Perm s.table.slots)
    (kind : SweepKind) :
    (s.reorder slots).table.admission kind s.entries = s.table.admission kind s.entries := by
  have hcontenders : ((s.reorder slots).contenders kind).Perm (s.contenders kind) :=
    (hperm.filter _).map _
  have hentries : (s.reorder slots).entries = s.entries := rfl
  rw [← hentries, (h.reorder hperm).admission_eq, hentries, h.admission_eq]
  exact Admission.ofCandidates_perm ((h.reorder hperm).nodup_contender_keys kind) hcontenders _

/-- A sweep judges every slot the same in any order. -/
theorem Consistent.judge_reorder (h : s.Consistent) (hperm : slots.Perm s.table.slots)
    (kind : SweepKind) (slot : Slot) :
    (s.reorder slots).table.judge kind s.isHeld s.entries slot
      = s.table.judge kind s.isHeld s.entries slot := by
  rw [Table.judge, h.admission_reorder hperm]
  rfl

/-- A sweep reports the same in any order. -/
theorem Consistent.report_reorder (h : s.Consistent) (hperm : slots.Perm s.table.slots)
    (kind : SweepKind) :
    ((s.reorder slots).table.sweep kind s.isHeld s.entries).1
      = (s.table.sweep kind s.isHeld s.entries).1 := by
  have hcount (v : Verdict) :
      (slots.map fun p => s.table.judge kind s.isHeld s.entries p.2).count v
        = (s.table.slots.map fun p => s.table.judge kind s.isHeld s.entries p.2).count v :=
    (hperm.map _).count_eq v
  have hslots : (s.reorder slots).table.slots = slots := rfl
  have hstatistics : (s.reorder slots).table.statistics = s.table.statistics := rfl
  rw [Table.report_sweep, Table.report_sweep, h.admission_reorder hperm]
  simp only [h.judge_reorder hperm, hslots, hstatistics, hcount]

/-- After a sweep, too, the order is all that differs. -/
theorem Consistent.sweep_reorder (h : s.Consistent) (hperm : slots.Perm s.table.slots)
    (number : ℕ) (kind : SweepKind) :
    (s.next number (.sweep kind)).Reordered ((s.reorder slots).next number (.sweep kind)) where
  slots := by
    show ((s.reorder slots).table.sweep kind s.isHeld s.entries).2.1.slots.Perm
      (s.table.sweep kind s.isHeld s.entries).2.1.slots
    rw [Table.slots_sweep, Table.slots_sweep]
    simp only [h.judge_reorder hperm]
    exact hperm.filterMap _
  options := rfl
  statistics := by
    show ((s.reorder slots).table.sweep kind s.isHeld s.entries).2.1.statistics
      = (s.table.sweep kind s.isHeld s.entries).2.1.statistics
    rw [Table.statistics_sweep, Table.statistics_sweep, h.report_reorder hperm]
    rfl
  pending := rfl
  entries := h.resetEntries_reorder hperm kind
  handles := rfl

/-! ## Other events -/

/-- What a slot says of a computation does not depend on the others. -/
theorem classify_reorder (t : Table) (slots : List (Digest × Slot)) (entries : Entries)
    (slot : Slot) (snapshots : Digest) :
    let r := t.classify entries slot snapshots
    ({ t with slots } : Table).classify entries slot snapshots
      = (r.1, { r.2.1 with slots }, r.2.2) := by
  rcases slot with i | i
  · rfl
  · simp only [Table.classify]
    rcases entries[i]? with - | e
    · rfl
    · dsimp only
      rcases e.payloadFor snapshots with - | payload
      · dsimp only
        split_ifs <;> rfl
      · rfl

/-- A lookup has the same answer in any order, and only adds to the slots. -/
theorem Consistent.consult_reorder (h : s.Consistent) (hperm : slots.Perm s.table.slots)
    (key : Digest) (kind : RecordKind) (snapshots : Digest) :
    let c := s.table.lookup s.entries key kind snapshots
    ∃ slots', slots'.Perm c.table.slots
      ∧ (s.reorder slots).table.lookup s.entries key kind snapshots
        = { c with table := { c.table with slots := slots' } } := by
  intro c
  have hfound : (s.reorder slots).table.slots.lookup key = s.table.slots.lookup key :=
    h.find_reorder hperm key
  rcases hslot : s.table.slots.lookup key with - | slot
  · have hclassify := classify_reorder (s.table.insertAdept key s.entries.size)
      ((key, .adept s.entries.size) :: slots) (s.entries.push { kind, key })
      (.adept s.entries.size) snapshots
    have hinserted : (s.reorder slots).table.insertAdept key s.entries.size
        = { s.table.insertAdept key s.entries.size with
            slots := (key, .adept s.entries.size) :: slots } := rfl
    refine ⟨(key, .adept s.entries.size) :: slots, ?_, ?_⟩
    · simp only [c, Table.lookup, hslot, Table.slots_classify]
      exact hperm.cons _
    · simp only [c, Table.lookup, hfound, hslot, hinserted, hclassify]
      rfl
  · have hclassify := classify_reorder s.table slots s.entries slot snapshots
    have hreordered : (s.reorder slots).table = { s.table with slots } := rfl
    refine ⟨slots, ?_, ?_⟩
    · simp only [c, Table.lookup, hslot, Table.slots_classify]
      exact hperm
    · simp only [c, Table.lookup, hfound, hslot]
      simp only [hreordered, hclassify]

/-- After any event the order is all that differs. -/
theorem Consistent.next_reorder (h : s.Consistent) (hperm : slots.Perm s.table.slots)
    (number : ℕ) (event : TableEvent) :
    (s.next number event).Reordered ((s.reorder slots).next number event) := by
  cases event with
  | lookup key kind snapshots =>
    obtain ⟨slots', hslots, hlookup⟩ := h.consult_reorder hperm key kind snapshots
    have hentries : (s.reorder slots).entries = s.entries := rfl
    rw [TableState.next, TableState.next, hentries, hlookup]
    exact ⟨hslots, rfl, rfl, rfl, rfl, rfl⟩
  | observe handle computed => exact ⟨hperm, rfl, rfl, rfl, rfl, rfl⟩
  | use handle => exact ⟨hperm, rfl, rfl, rfl, rfl, rfl⟩
  | drop handle => exact ⟨hperm, rfl, rfl, rfl, rfl, rfl⟩
  | sweep kind => exact h.sweep_reorder hperm number kind

/-! ## Runs -/

/-- The states that a list of events leads to where the slots of a table are listed in any order,
and in another one each time. -/
inductive Arises (options : CacheOptions) : List TableEvent → TableState → Prop
  | start : Arises options [] { table := { options } }
  | next {past : List TableEvent} {s : TableState} (event : TableEvent) :
    Arises options past s → Arises options (event :: past) (s.next past.length event)
  | reorder {past : List TableEvent} {s : TableState} {slots : List (Digest × Slot)} :
    Arises options past s → slots.Perm s.table.slots → Arises options past (s.reorder slots)

variable {options : CacheOptions} {past : List TableEvent}

/-- One of them is the state in which the slots are never listed anew. -/
theorem arises_after (options : CacheOptions) (past : List TableEvent) :
    Arises options past (after options past) := by
  induction past with
  | nil => exact .start
  | cons event past ih => exact ih.next event

/-- The order is all in which they differ. -/
theorem Arises.reordered (h : Arises options past s) : (after options past).Reordered s := by
  induction h with
  | start => exact .refl _
  | next event _ ih =>
    rw [ih.eq_reorder]
    exact (after_consistent options _).next_reorder ih.slots _ event
  | reorder _ hperm ih =>
    exact ⟨hperm.trans ih.slots, ih.options, ih.statistics, ih.pending, ih.entries, ih.handles⟩

/-- They are consistent. -/
theorem Arises.consistent (h : Arises options past s) : s.Consistent := by
  rw [h.reordered.eq_reorder]
  exact (after_consistent options past).reorder h.reordered.slots

/-- What a sweep of either kind leaves and reports is settled by the table, whatever the order in
which its slots are listed. Of two slots that compete for room, one that becomes or stays a record
while a better one does not is smaller than the latter. -/
theorem sweep_settled (h : Arises options past s) (kind : SweepKind)
    (hperm : slots.Perm s.table.slots) :
    let report (s : TableState) := (s.table.sweep kind s.isHeld s.entries).1
    let swept := s.next past.length (.sweep kind)
    report (s.reorder slots) = report s
      ∧ swept.Reordered ((s.reorder slots).next past.length (.sweep kind))
      ∧ ∀ p ∈ s.table.slots, ∀ q ∈ s.table.slots,
        s.competes kind p = true → s.competes kind q = true →
          (s.contender q).ranksBefore (s.contender p) = true →
            swept.hasRecord p.1 = true → swept.hasRecord q.1 = false →
              (s.contender p).size < (s.contender q).size := by
  intro report swept
  have hs := h.consistent
  refine ⟨hs.report_reorder hperm kind, hs.sweep_reorder hperm _ kind, ?_⟩
  intro p hp q hq hpcompetes hqcompetes hranks hin hout
  have hcontender {p : Digest × Slot} (hp : p ∈ s.table.slots)
      (hcompetes : s.competes kind p = true) : s.contender p ∈ s.contenders kind :=
    List.mem_map_of_mem (List.mem_filter.2 ⟨hp, hcompetes⟩)
  rw [hs.hasRecord_sweep_iff hp, hs.admission_eq] at hin
  rw [← Bool.not_eq_true, hs.hasRecord_sweep_iff hq, hs.admission_eq] at hout
  exact Admission.size_lt_of_skipped (hs.nodup_contender_keys kind)
    (hs.nodup_contender_entries kind) (hcontender hq hqcompetes) (hcontender hp hpcompetes) hranks
    hin hout

/-- A run in which a large result that saves much and a small one that saves little are measured. -/
def largeAndSmall (large small : Digest) : List TableEvent :=
  let computed (cost size : ℕ) : Computed :=
    { cost, size, snapshots := .word 1, payload := .sorted [] }
  [.observe 2 (computed 100 10), .lookup small .sorted (.word 1), .observe 0 (computed 1000 200),
    .lookup large .sorted (.word 1)]

/-- Where there is room for the small one only, it is promoted in either order. -/
theorem sweep_settled_largeAndSmall :
    let options : CacheOptions := { cacheSize := 100, minimalUsage := 0 }
    let s := after options (largeAndSmall (.word 7) (.word 8))
    let report (s : TableState) := (s.table.sweep .anteroom s.isHeld s.entries).1
    report (s.reorder s.table.slots.reverse) = report s ∧ (report s).promoted = 1
      ∧ (s.contender (.word 8, .adept 1)).size < (s.contender (.word 7, .adept 0)).size := by
  intro options s report
  obtain ⟨hreport, -, hsmaller⟩ := sweep_settled
    (arises_after options (largeAndSmall (.word 7) (.word 8))) .anteroom (List.reverse_perm _)
  have hsmall : (.word 8, .adept 1) ∈ s.table.slots := Table.mem_of_lookup_eq_some (by cbv)
  have hlarge : (.word 7, .adept 0) ∈ s.table.slots := Table.mem_of_lookup_eq_some (by cbv)
  have hpromoted : (report s).promoted = 1 := by
    dsimp only [report, s, options]
    cbv
  refine ⟨hreport, hpromoted, hsmaller _ hsmall _ hlarge (by cbv) (by cbv) (by cbv) ?_ ?_⟩
  all_goals
    dsimp only [s, options]
    cbv

end TableState

end EntityQuery
