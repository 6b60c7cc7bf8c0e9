import EntityQuery.Proofs.Cache.Course
import Mathlib.Tactic

/-!
# The accounts of a table

The counters of a table are kept apart from its slots. They agree all the same
(`TableState.after_balanced`): there are as many adepts and as many records as the counters say, and
the bytes in use are the sizes of the records, within the budget. Only the sum of sizes can go
wrong, where it is no word. It is at most what was reported (`TableState.totalBytes_after_le`), so
it is a word as long as the sum of the reports is.

The slots that a sweep judges are accounted for by what it reports (`Table.balances_sweep`).
-/

namespace EntityQuery

/-! ## Sizes -/

/-- The bytes charged for an entry. -/
def bytesAt (entries : Entries) (i : EntryId) : ℕ := entries[i]?.elim 0 Entry.size

/-- The bytes charged for all entries together. -/
def totalBytes (entries : Entries) : ℕ := ∑ i ∈ Finset.range entries.size, bytesAt entries i

/-- The bytes that an event reports, with the overhead of a record. -/
def TableEvent.reportedBytes : TableEvent → ℕ
  | observe _ computed => computed.size + recordOverhead
  | lookup _ _ _ | use _ | drop _ | sweep _ => 0

/-- Measuring an entry makes it larger by what is reported at most. -/
theorem Entry.size_measure_le (e : Entry) (cost size : ℕ) :
    (e.measure cost size).size ≤ e.size + (size + recordOverhead) := by
  rcases hm : e.metrics with - | m
  · have hsize : (e.measure cost size).size = Word.wrap (size + recordOverhead) := by
      simp [Entry.size, Entry.measure, hm]
    rw [hsize]
    exact Nat.le_add_left_of_le (Nat.mod_le _ _)
  · have hsame : (e.measure cost size).size = e.size := by
      simp [Entry.size, Entry.measure, hm]
    rw [hsame]
    exact Nat.le_add_right _ _

/-- A report adds its own bytes at most. -/
theorem Observer.size_told_le (o : Observer) (computed : Computed) (e : Entry) :
    (o.told computed e).size ≤ e.size + (computed.size + recordOverhead) := by
  cases o with
  | adept i => exact e.size_measure_le computed.cost computed.size
  | recording i => exact Nat.le_add_right _ _

/-- What was measured is not measured again. -/
theorem Observer.size_told {e : Entry} (h : e.metrics.isSome) (o : Observer)
    (computed : Computed) : (o.told computed e).size = e.size := by
  obtain ⟨m, hm⟩ := Option.isSome_iff_exists.1 h
  cases o with
  | adept i => simp [told, Entry.size, Entry.measure, hm]
  | recording i => rfl

/-- A change of one entry adds to the total what it adds to the entry. -/
theorem totalBytes_modify_le {f : Entry → Entry} {b : ℕ} (hf : ∀ e, (f e).size ≤ e.size + b)
    (entries : Entries) (i : EntryId) :
    totalBytes (entries.modify i f) ≤ totalBytes entries + b := by
  have hone (j : EntryId) :
      bytesAt (entries.modify i f) j ≤ bytesAt entries j + if j = i then b else 0 := by
    unfold bytesAt
    rw [Array.getElem?_modify]
    by_cases hij : i = j
    · rw [if_pos hij, if_pos hij.symm]
      rcases entries[j]? with - | e
      · exact Nat.zero_le _
      · exact hf e
    · rw [if_neg hij]
      exact Nat.le_add_right _ _
  calc totalBytes (entries.modify i f)
      = ∑ j ∈ Finset.range entries.size, bytesAt (entries.modify i f) j := by
        rw [totalBytes, Array.size_modify]
    _ ≤ ∑ j ∈ Finset.range entries.size, (bytesAt entries j + if j = i then b else 0) :=
        Finset.sum_le_sum fun j _ => hone j
    _ = totalBytes entries + ∑ j ∈ Finset.range entries.size, if j = i then b else 0 :=
        Finset.sum_add_distrib
    _ ≤ totalBytes entries + b := by
        rw [Finset.sum_ite_eq']
        split_ifs <;> omega

/-- An entry that was not measured takes no bytes. -/
theorem totalBytes_push {e : Entry} (h : e.size = 0) (entries : Entries) :
    totalBytes (entries.push e) = totalBytes entries := by
  have hlast : bytesAt (entries.push e) entries.size = 0 := by
    rw [bytesAt, Array.getElem?_push_size]
    exact h
  have hothers : ∀ i ∈ Finset.range entries.size,
      bytesAt (entries.push e) i = bytesAt entries i := by
    intro i hi
    have hne : i ≠ entries.size := Nat.ne_of_lt (Finset.mem_range.1 hi)
    rw [bytesAt, bytesAt, Array.getElem?_push, if_neg hne]
  rw [totalBytes, Array.size_push, Finset.sum_range_succ, hlast, Nat.add_zero]
  exact Finset.sum_congr rfl hothers

/-- Sweeps leave sizes alone. -/
theorem bytesAt_resetEntries {t : Table} (hnodup : (t.slots.map (·.2.entry)).Nodup)
    (kind : SweepKind) (entries : Entries) (i : EntryId) :
    bytesAt (t.resetEntries kind entries) i = bytesAt entries i := by
  unfold bytesAt
  rw [Table.getElem?_resetEntries hnodup]
  split_ifs
  · rcases entries[i]? with - | e <;> rfl
  · rfl

/-- Different entries take no more bytes than all of them. -/
theorem sum_bytesAt_le {ids : List EntryId} (hnodup : ids.Nodup) (entries : Entries) :
    (ids.map (bytesAt entries)).sum ≤ totalBytes entries := by
  rw [← List.sum_toFinset _ hnodup]
  refine Finset.sum_le_sum_of_ne_zero fun i _ hne => Finset.mem_range.2 ?_
  by_contra hge
  have hnone : entries[i]? = none := Array.getElem?_eq_none (Nat.le_of_not_lt hge)
  exact hne (by rw [bytesAt, hnone]; rfl)

namespace Table

variable {t : Table} {kind : SweepKind} {held : EntryId → Bool} {entries : Entries}

/-! ## What a sweep reports -/

/-- The slots that some verdict leaves are those that there were, up to the verdicts that end or
promote them. -/
theorem countP_applyVerdict {slots : List (Digest × Slot)} {judge : Slot → Verdict}
    (hadept : ∀ i, judge (.adept i) ≠ .evict ∧ judge (.adept i) ≠ .expire)
    (hcached : ∀ i, judge (.cached i) ≠ .promote ∧ judge (.cached i) ≠ .discard) :
    let left := slots.filterMap fun s => (applyVerdict s.2 (judge s.2)).map (s.1, ·)
    let count (v : Verdict) := slots.countP fun s => judge s.2 == v
    left.countP (!·.2.isAdept) + count .evict + count .expire
        = slots.countP (!·.2.isAdept) + count .promote
      ∧ left.countP (·.2.isAdept) + count .promote + count .discard
        = slots.countP (·.2.isAdept) := by
  induction slots with
  | nil => exact ⟨rfl, rfl⟩
  | cons s rest ih =>
    obtain ⟨key, slot⟩ := s
    dsimp only at ih ⊢
    simp only [List.countP_cons, List.filterMap_cons]
    -- One more slot is counted where its verdict puts it.
    rcases slot with i | i
    · obtain ⟨hevict, hexpire⟩ := hadept i
      rcases hv : judge (.adept i) with - | - | - | - | -
      · simp [List.countP_cons]
        omega
      · simp
        omega
      · exact absurd hv hevict
      · exact absurd hv hexpire
      · simp
        omega
    · obtain ⟨hpromote, hdiscard⟩ := hcached i
      rcases hv : judge (.cached i) with - | - | - | - | -
      · simp
        omega
      · exact absurd hv hpromote
      · simp
        omega
      · simp
        omega
      · exact absurd hv hdiscard

/-- Adepts are not evicted and do not expire. -/
theorem judge_adept_ne (t : Table) (kind : SweepKind) (held : EntryId → Bool) (entries : Entries)
    (i : EntryId) :
    t.judge kind held entries (.adept i) ≠ .evict
      ∧ t.judge kind held entries (.adept i) ≠ .expire := by
  unfold judge verdict
  rcases entries[(Slot.adept i).entry]? with - | e
  · exact ⟨nofun, nofun⟩
  · dsimp only
    split_ifs <;> exact ⟨nofun, nofun⟩

/-- Records are not promoted and not discarded. -/
theorem judge_cached_ne (t : Table) (kind : SweepKind) (held : EntryId → Bool) (entries : Entries)
    (i : EntryId) :
    t.judge kind held entries (.cached i) ≠ .promote
      ∧ t.judge kind held entries (.cached i) ≠ .discard := by
  unfold judge verdict
  rcases entries[(Slot.cached i).entry]? with - | e
  · exact ⟨nofun, nofun⟩
  · dsimp only
    split_ifs <;> exact ⟨nofun, nofun⟩

/-- There are as many records as slots of records. -/
theorem length_records (t : Table) : t.records.length = t.slots.countP (!·.2.isAdept) := by
  unfold records
  induction t.slots with
  | nil => rfl
  | cons s rest ih =>
    rw [List.filterMap_cons, List.countP_cons]
    rcases s.2.isAdept with - | -
    · simpa using ih
    · simpa using ih

/-- What a sweep reports accounts for the slots that it judged. -/
theorem balances_sweep (t : Table) (kind : SweepKind) (held : EntryId → Bool)
    (entries : Entries) :
    let r := (t.sweep kind held entries).1
    let t' := (t.sweep kind held entries).2.1
    t'.records.length + r.evicted + r.expired = t.records.length + r.promoted
      ∧ t'.slots.countP (·.2.isAdept) + r.promoted + r.discarded
        = t.slots.countP (·.2.isAdept) := by
  intro r t'
  have hcount (v : Verdict) :
      (t.slots.map fun s => (s, t.judge kind held entries s.2)).countP (·.2 == v)
        = t.slots.countP fun s => t.judge kind held entries s.2 == v := List.countP_map
  have hpromoted : r.promoted = _ := hcount .promote
  have hevicted : r.evicted = _ := hcount .evict
  have hexpired : r.expired = _ := hcount .expire
  have hdiscarded : r.discarded = _ := hcount .discard
  rw [length_records, length_records, slots_sweep, hpromoted, hevicted, hexpired, hdiscarded]
  exact countP_applyVerdict (t.judge_adept_ne kind held entries)
    (t.judge_cached_ne kind held entries)

/-- The bytes in use after a sweep are the sizes of the records, within the budget. -/
theorem usedBytes_sweep (hnodup : (t.slots.map (·.2.entry)).Nodup)
    (hentries : ∀ s ∈ t.slots, s.2.entry < entries.size) (hword : totalBytes entries ≤ Word.max)
    (kind : SweepKind) (held : EntryId → Bool) :
    let t' := (t.sweep kind held entries).2.1
    t'.statistics.usedBytes = (t'.records.map (bytesAt entries)).sum
      ∧ t'.statistics.usedBytes ≤ t.options.cacheSize := by
  intro t'
  have hused : t'.statistics.usedBytes = (t.admission kind entries).usedBytes := rfl
  -- The size of a candidate is that of its entry.
  have hsize : ∀ c ∈ t.slots.filterMap fun s => t.candidate? kind entries s.1 s.2,
      c.size = bytesAt entries c.entry := by
    intro c hc
    obtain ⟨s, hs, hcandidate⟩ := List.mem_filterMap.1 hc
    obtain ⟨hentry, e, m, he, hm, hsize, -⟩ := candidate?_eq_some hcandidate
    rw [bytesAt, hentry, he, Option.elim_some, Entry.size, hm, hsize]
    rfl
  obtain ⟨admitted, hsubperm, hentriesPerm, hbytes⟩ :=
    Admission.ofCandidates_spec t.options.cacheSize
      (t.slots.filterMap fun s => t.candidate? kind entries s.1 s.2)
  have hcandidates : ((t.slots.filterMap fun s =>
      t.candidate? kind entries s.1 s.2).map Candidate.size).sum ≤ Word.max := by
    rw [List.map_congr_left hsize, ← Function.comp_def, ← List.map_map]
    have hids := hnodup.sublist (t.entries_candidates_sublist kind entries)
    exact Nat.le_trans (sum_bytesAt_le hids entries) hword
  obtain ⟨hsum, hbudget⟩ := hbytes hcandidates
  have hrecords := records_sweep hnodup hentries kind held
  refine ⟨?_, hused ▸ hbudget⟩
  calc t'.statistics.usedBytes
      = (admitted.map Candidate.size).sum := hused.trans hsum
    _ = ((admitted.map Candidate.entry).map (bytesAt entries)).sum := by
        rw [List.map_map,
          List.map_congr_left fun c hc => hsize c (hsubperm.subset hc)]
        rfl
    _ = (t'.records.map (bytesAt entries)).sum :=
        ((hrecords.trans hentriesPerm).symm.map (bytesAt entries)).sum_eq

end Table

/-- Whether the answer is a result. -/
def Lookup.isHit : Lookup → Bool
  | hit _ => true
  | record _ | adept _ | stale => false

namespace TableState

variable {s s' : TableState} {answers : List Lookup}

/-! ## What was reported -/

/-- An event adds to the total what it reports at most. -/
theorem Consistent.totalBytes_next_le (h : s.Consistent) (number : ℕ) (event : TableEvent) :
    totalBytes (s.next number event).entries ≤ totalBytes s.entries + event.reportedBytes := by
  have huse (entries : Entries) (i : EntryId) :
      totalBytes (entries.modify i Entry.use) ≤ totalBytes entries :=
    totalBytes_modify_le (f := Entry.use) (b := 0) (fun _ => Nat.le_refl _) entries i
  cases event with
  | lookup key kind snapshots =>
    have hlooks := Table.looksUp h.entry_lt key kind snapshots
    unfold TableState.next
    dsimp only
    generalize s.table.lookup s.entries key kind snapshots = c at hlooks ⊢
    cases hlooks with
    | inserted hslot schedule => exact (huse _ _).trans (totalBytes_push rfl s.entries).le
    | followed hslot => exact huse _ _
    | awaited hslot he hpayload => exact huse _ _
    | found hslot he hpayload => exact huse _ _
    | outdated hslot he hpayload hne => exact Nat.le_refl _
  | observe handle computed =>
    rcases ho : s.handle? handle with - | o
    · rw [next_observe_of_none ho]
      exact Nat.le_add_right _ _
    · rw [next_observe ho]
      exact totalBytes_modify_le (o.size_told_le computed) s.entries o.entry
  | use handle =>
    rcases ho : s.handle? handle with - | o
    · rw [next_use_of_none ho]
      exact Nat.le_add_right _ _
    · rw [next_use ho]
      exact huse s.entries o.entry
  | drop handle => exact Nat.le_refl _
  | sweep kind =>
    have hsame : totalBytes (s.table.resetEntries kind s.entries) = totalBytes s.entries := by
      rw [totalBytes, Table.size_resetEntries]
      exact Finset.sum_congr rfl fun i _ => bytesAt_resetEntries h.nodup_entries kind s.entries i
    exact hsame.le

/-- All entries together take the bytes that were reported at most. -/
theorem totalBytes_after_le (options : CacheOptions) (past : List TableEvent) :
    totalBytes (after options past).entries ≤ (past.map TableEvent.reportedBytes).sum := by
  induction past with
  | nil => exact Nat.le_refl _
  | cons event past ih =>
    have hnext := (after_consistent options past).totalBytes_next_le past.length event
    rw [List.map_cons, List.sum_cons, Nat.add_comm]
    exact hnext.trans (Nat.add_le_add_right ih _)

/-- The size of a record does not change. -/
theorem Consistent.bytesAt_next (h : s.Consistent) {i : EntryId} (hi : i ∈ s.table.records)
    (number : ℕ) (event : TableEvent) :
    bytesAt (s.next number event).entries i = bytesAt s.entries i := by
  obtain ⟨key, hmem⟩ := Table.mem_records.1 hi
  have hslot : s.slot? key = some (.cached i) := h.slot?_eq_some_iff.2 hmem
  obtain ⟨e, he, hmeasured⟩ := h.exists_entry hslot
  obtain ⟨e', he', hchange⟩ := h.entry_next hslot he number event
  have he : s.entries[i]? = some e := he
  have he' : (s.next number event).entries[i]? = some e' := he'
  rw [bytesAt, bytesAt, he, he', Option.elim_some, Option.elim_some]
  rcases hchange with rfl | rfl | rfl | ⟨o, computed, rfl⟩
  · rfl
  · rfl
  · rfl
  · exact o.size_told hmeasured computed

/-! ## What the counters say -/

/-- No event changes the options of a table. -/
theorem Consistent.options_next (h : s.Consistent) (number : ℕ) (event : TableEvent) :
    (s.next number event).table.options = s.table.options := by
  cases event with
  | lookup key kind snapshots =>
    have hlooks := Table.looksUp h.entry_lt key kind snapshots
    unfold TableState.next
    dsimp only
    generalize s.table.lookup s.entries key kind snapshots = c at hlooks ⊢
    cases hlooks <;> rfl
  | observe handle computed => rfl
  | use handle => rfl
  | drop handle => rfl
  | sweep kind => rfl

/-- A table has the options that it was made with. -/
theorem options_after (options : CacheOptions) (past : List TableEvent) :
    (after options past).table.options = options := by
  induction past with
  | nil => rfl
  | cons event past ih => exact ((after_consistent options past).options_next _ event).trans ih

/-- The answers to the lookups since the last periodic sweep. -/
def answered (options : CacheOptions) : List TableEvent → List Lookup
  | [] => []
  | .lookup key kind snapshots :: past =>
    (after options past).answer key kind snapshots :: answered options past
  | .sweep .periodic :: _ => []
  | .sweep .anteroom :: past | .observe _ _ :: past | .use _ :: past | .drop _ :: past =>
    answered options past

/-- The counters of a table agree with its slots and with the answers to the lookups since the last
periodic sweep. -/
structure Balanced (s : TableState) (answers : List Lookup) : Prop where
  /-- The adepts are counted. -/
  adepts : s.table.statistics.adepts = s.table.slots.countP (·.2.isAdept)
  /-- So are the records. -/
  records : s.table.statistics.records = s.table.records.length
  /-- The records take up the sum of their sizes. -/
  usedBytes : s.table.statistics.usedBytes = (s.table.records.map (bytesAt s.entries)).sum
  /-- That is within the budget. -/
  budget : s.table.statistics.usedBytes ≤ s.table.options.cacheSize
  /-- The answers that are hits are counted. -/
  hits : s.table.statistics.hits = answers.countP Lookup.isHit
  /-- Each answer is counted as a hit or as a miss. -/
  lookups : s.table.statistics.hits + s.table.statistics.misses = answers.length

namespace Balanced

/-- The counters go on to agree where the table stays, with the sizes of its records. -/
theorem of_table (hb : s.Balanced answers) (htable : s'.table = s.table)
    (hbytes : ∀ i ∈ s.table.records, bytesAt s'.entries i = bytesAt s.entries i) :
    s'.Balanced answers where
  adepts := htable ▸ hb.adepts
  records := htable ▸ hb.records
  usedBytes := by
    rw [htable, List.map_congr_left hbytes]
    exact hb.usedBytes
  budget := htable ▸ hb.budget
  hits := htable ▸ hb.hits
  lookups := htable ▸ hb.lookups

/-- A lookup counts a hit or a miss, and what it inserts is an adept. -/
theorem lookup (hb : s.Balanced answers) (h : s.Consistent) (number : ℕ) (key : Digest)
    (kind : RecordKind) (snapshots : Digest) :
    (s.next number (.lookup key kind snapshots)).Balanced
      (s.answer key kind snapshots :: answers) := by
  have hbytes : ∀ i ∈ s.table.records,
      bytesAt (s.next number (.lookup key kind snapshots)).entries i = bytesAt s.entries i :=
    fun i hi => h.bytesAt_next hi number _
  have hlooks := Table.looksUp h.entry_lt key kind snapshots
  unfold answer
  unfold next at hbytes ⊢
  dsimp only at hbytes ⊢
  generalize s.table.lookup s.entries key kind snapshots = c at hlooks hbytes ⊢
  have hhits := hb.hits
  have hmiss : s.table.statistics.hits + (s.table.statistics.misses + 1)
      = (c.answer :: answers).length := by
    rw [List.length_cons, ← hb.lookups, Nat.add_assoc]
  have hused := hb.usedBytes
  rw [← List.map_congr_left hbytes] at hused
  cases hlooks with
  | inserted hslot schedule =>
    refine ⟨?_, hb.records, hused, hb.budget, hhits, hmiss⟩
    show s.table.statistics.adepts + 1 = _
    rw [hb.adepts]
    exact (List.countP_cons_of_pos rfl).symm
  | followed hslot => exact ⟨hb.adepts, hb.records, hused, hb.budget, hhits, hmiss⟩
  | awaited hslot he hpayload => exact ⟨hb.adepts, hb.records, hused, hb.budget, hhits, hmiss⟩
  | found hslot he hpayload =>
    refine ⟨hb.adepts, hb.records, hused, hb.budget, ?_, ?_⟩
    · show s.table.statistics.hits + 1 = _
      rw [hhits]
      exact (List.countP_cons_of_pos rfl).symm
    · show s.table.statistics.hits + 1 + s.table.statistics.misses = _
      rw [List.length_cons, ← hb.lookups, Nat.add_right_comm]
  | outdated hslot he hpayload hne =>
    exact ⟨hb.adepts, hb.records, hused, hb.budget, hhits, hmiss⟩

/-- A sweep counts what it leaves, and a periodic one begins to count hits and misses anew. -/
theorem sweep (hb : s.Balanced answers) (h : s.Consistent)
    (hword : totalBytes s.entries ≤ Word.max) (number : ℕ) (kind : SweepKind) :
    (s.next number (.sweep kind)).Balanced (if kind = .periodic then [] else answers) := by
  have hrecords := Table.records_sweep h.nodup_entries h.entry_lt kind s.isHeld
  obtain ⟨hused, hbudget⟩ := Table.usedBytes_sweep h.nodup_entries h.entry_lt hword kind s.isHeld
  obtain ⟨-, hadepts⟩ := s.table.balances_sweep kind s.isHeld s.entries
  have hbytes : bytesAt (s.next number (.sweep kind)).entries = bytesAt s.entries :=
    funext fun i => bytesAt_resetEntries h.nodup_entries kind s.entries i
  refine ⟨?_, hrecords.length_eq.symm, hbytes ▸ hused, hbudget, ?_, ?_⟩
  · -- The counter of adepts goes down by what the report says.
    have hbefore := hadepts.trans hb.adepts.symm
    show s.table.statistics.adepts - (s.table.sweep kind s.isHeld s.entries).1.promoted
        - (s.table.sweep kind s.isHeld s.entries).1.discarded
      = (s.table.sweep kind s.isHeld s.entries).2.1.slots.countP (·.2.isAdept)
    omega
  · rcases kind with - | -
    · rfl
    · exact hb.hits
  · rcases kind with - | -
    · rfl
    · exact hb.lookups

/-- Whatever happens, the counters agree, as long as all sizes together are a word. -/
theorem next {options : CacheOptions} {past : List TableEvent} {event : TableEvent}
    (hb : (after options past).Balanced (answered options past))
    (hword : totalBytes (after options past).entries ≤ Word.max) :
    (after options (event :: past)).Balanced (answered options (event :: past)) := by
  have h := after_consistent options past
  have hbytes : ∀ i ∈ (after options past).table.records,
      bytesAt (after options (event :: past)).entries i = bytesAt (after options past).entries i :=
    fun i hi => h.bytesAt_next hi past.length event
  cases event with
  | lookup key kind snapshots => exact hb.lookup h past.length key kind snapshots
  | observe handle computed => exact hb.of_table rfl hbytes
  | use handle => exact hb.of_table rfl hbytes
  | drop handle => exact hb.of_table rfl hbytes
  | sweep kind =>
    have hsweep := hb.sweep h hword past.length kind
    rcases kind with - | - <;> exact hsweep

end Balanced

/-- The counters of a table agree at any time, as long as the sum of what was reported is a word. -/
theorem after_balanced {options : CacheOptions} {past : List TableEvent}
    (hword : (past.map TableEvent.reportedBytes).sum ≤ Word.max) :
    (after options past).Balanced (answered options past) := by
  induction past with
  | nil => exact ⟨rfl, rfl, rfl, Nat.zero_le _, rfl, rfl⟩
  | cons event past ih =>
    rw [List.map_cons, List.sum_cons] at hword
    have hpast : (past.map TableEvent.reportedBytes).sum ≤ Word.max := by omega
    exact (ih hpast).next ((totalBytes_after_le options past).trans hpast)

/-- What the counters say, and what every sweep reports, is exact and within the budget, as long as
the sum of what was reported is a word. -/
theorem statistics_exact (options : CacheOptions) (past : List TableEvent)
    (hword : (past.map TableEvent.reportedBytes).sum ≤ Word.max) :
    let s := after options past
    s.table.statistics.adepts = s.table.slots.countP (·.2.isAdept)
      ∧ s.table.statistics.records = s.table.slots.countP (!·.2.isAdept)
      ∧ s.table.statistics.usedBytes = (s.table.records.map (bytesAt s.entries)).sum
      ∧ s.table.statistics.usedBytes ≤ options.cacheSize
      ∧ s.table.statistics.hits = (answered options past).countP Lookup.isHit
      ∧ s.table.statistics.hits + s.table.statistics.misses = (answered options past).length
      ∧ ∀ kind,
        let r := (s.table.sweep kind s.isHeld s.entries).1
        let swept := (after options (.sweep kind :: past)).table.statistics
        (r.records = swept.records ∧ r.adepts = swept.adepts ∧ r.usedBytes = swept.usedBytes)
          ∧ r.records + r.evicted + r.expired = s.table.statistics.records + r.promoted
          ∧ r.adepts + r.promoted + r.discarded = s.table.statistics.adepts := by
  intro s
  have hb : s.Balanced (answered options past) := after_balanced hword
  have hbudget : s.table.statistics.usedBytes ≤ options.cacheSize :=
    options_after options past ▸ hb.budget
  refine ⟨hb.adepts, hb.records.trans s.table.length_records, hb.usedBytes, hbudget, hb.hits,
    hb.lookups, fun kind => ?_⟩
  intro r swept
  have hswept : (after options (.sweep kind :: past)).Balanced _ :=
    hb.next ((totalBytes_after_le options past).trans hword)
  obtain ⟨hrecords, hadepts⟩ := s.table.balances_sweep kind s.isHeld s.entries
  have hrecordsAfter : r.records = _ := hswept.records
  have hadeptsAfter : r.adepts = _ := hswept.adepts
  refine ⟨⟨rfl, rfl, rfl⟩, ?_, ?_⟩
  · rw [hrecordsAfter, hb.records]
    exact hrecords
  · rw [hadeptsAfter, hb.adepts]
    exact hadepts

/-- A run in which two computations compete for room that only one of them fits. -/
def contended : List TableEvent :=
  let computed (cost : ℕ) : Computed :=
    { cost, size := 100, snapshots := .word 1, payload := .sorted [] }
  [.sweep .periodic, .observe 1 (computed 2000), .observe 0 (computed 1000),
    .lookup (.word 8) .sorted (.word 1), .lookup (.word 7) .sorted (.word 1)]

/-- After the competition there is one record, and the bytes in use are its own. -/
theorem statistics_exact_contended :
    let s := after { cacheSize := 200, minimalUsage := 0 } contended
    s.table.slots.countP (·.2.isAdept) = 1 ∧ s.table.slots.countP (!·.2.isAdept) = 1
      ∧ (s.table.records.map (bytesAt s.entries)).sum = 164 := by
  intro s
  have hstatistics : s.table.statistics = ⟨0, 0, 1, 1, 164, 1⟩ := by cbv
  obtain ⟨hadepts, hrecords, hused, -⟩ :=
    statistics_exact { cacheSize := 200, minimalUsage := 0 } contended (by decide)
  have hstatistics' : (after { cacheSize := 200, minimalUsage := 0 } contended).table.statistics
      = ⟨0, 0, 1, 1, 164, 1⟩ := hstatistics
  rw [hstatistics'] at hadepts hrecords hused
  exact ⟨hadepts.symm, hrecords.symm, hused.symm⟩

end TableState

end EntityQuery
