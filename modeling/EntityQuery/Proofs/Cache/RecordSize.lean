import EntityQuery.Proofs.Cache.Accounting
import EntityQuery.Proofs.Cache.Recorded
import EntityQuery.Sort.Merge

/-!
# What a record is charged

A record is charged the size that its computation reported first, while it was only followed
(`TableState.bytesAt_eq`). The result that it holds comes from a later run, and the size that is
reported with it is not looked at. So the budget bounds the results that are held where none of them
is larger than the first report of its computation (`TableState.charged_iff`), and not where one has
grown in between (`TableState.not_charged_grown`).
-/

namespace EntityQuery

namespace TableState

variable {options : CacheOptions} {past : List TableEvent} {key : Digest} {i : EntryId}

/-- The size that was reported with the result that a slot holds. -/
def heldBytes (options : CacheOptions) (past : List TableEvent) (slot : Digest × Slot) : ℕ :=
  if slot.2.isAdept then 0 else (recorded options slot.1 past).elim 0 (·.size)

/-- A report that counts has happened. -/
theorem exists_observe_of_firstReport {begins : List TableEvent → Bool} {through : Observer → Bool}
    {computed : Computed} (h : firstReport options key begins through past = some computed) :
    ∃ handle, .observe handle computed ∈ past := by
  induction past with
  | nil => exact absurd h (Option.some_ne_none computed).symm
  | cons event past ih =>
    rw [firstReport] at h
    split_ifs at h
    rcases Option.or_eq_some_iff.1 h with hbefore | ⟨-, hnow⟩
    · obtain ⟨handle, hmem⟩ := ih hbefore
      exact ⟨handle, List.mem_cons_of_mem _ hmem⟩
    · cases event with
      | observe handle computed' =>
        rw [reported] at hnow
        split_ifs at hnow
        obtain rfl := Option.some.inj hnow
        exact ⟨handle, List.mem_cons_self⟩
      | lookup key' kind snapshots => exact absurd hnow (Option.some_ne_none computed).symm
      | use handle => exact absurd hnow (Option.some_ne_none computed).symm
      | drop handle => exact absurd hnow (Option.some_ne_none computed).symm
      | sweep kind => exact absurd hnow (Option.some_ne_none computed).symm

/-- What is charged for a record is what was reported first, with the overhead of a record. -/
theorem bytesAt_eq (hword : (past.map TableEvent.reportedBytes).sum ≤ Word.max)
    (hslot : (after options past).slot? key = some (.cached i)) :
    ∃ first, measured options key past = some first
      ∧ bytesAt (after options past).entries i = first.size + recordOverhead := by
  obtain ⟨e, he, hsuits⟩ := (after_consistent options past).exists_entry hslot
  obtain ⟨m, hm⟩ := Option.isSome_iff_exists.1 hsuits
  have hmeasured := metrics_eq_measured hslot he
  rw [hm] at hmeasured
  obtain ⟨first, hfirst, rfl⟩ := Option.map_eq_some_iff.1 hmeasured.symm
  refine ⟨first, hfirst, ?_⟩
  -- The first report is one of those whose sum is a word.
  obtain ⟨handle, hmem⟩ := exists_observe_of_firstReport hfirst
  have hle : first.size + recordOverhead ≤ (past.map TableEvent.reportedBytes).sum :=
    List.le_sum_of_mem (List.mem_map.2 ⟨_, hmem, rfl⟩)
  have hlt : first.size + recordOverhead < Word.modulus :=
    Nat.lt_of_le_of_lt (hle.trans hword) (by decide)
  have he : (after options past).entries[i]? = some e := he
  rw [bytesAt, he, Option.elim_some, Entry.size, hm, Option.elim_some, Word.wrap_of_lt hlt]

/-- Only what is small enough becomes a record. -/
theorem bytesAt_le_maxRecordSize (hslot : (after options past).slot? key = some (.cached i)) :
    bytesAt (after options past).entries i ≤ options.maxRecordSize := by
  induction past with
  | nil => exact absurd hslot (by simp [after, slot?])
  | cons event past ih =>
    have h := after_consistent options past
    rcases h.slot_next hslot with ⟨-, hnew, -⟩ | hsame | ⟨j, hadept, hj, kind, rfl⟩
    · exact absurd hnew (by simp)
    · have hi : i ∈ (after options past).table.records :=
        Table.mem_records.2 ⟨key, h.slot?_eq_some_iff.1 hsame⟩
      exact (h.bytesAt_next hi past.length event).trans_le (ih hsame)
    · obtain rfl := Slot.cached.inj hj
      have hmem := h.slot?_eq_some_iff.1 hadept
      rw [after, h.slot?_sweep, hadept, Option.bind_some] at hslot
      obtain ⟨-, hin⟩ :=
        (Table.applyVerdict_judge_eq_cached h.nodup_entries h.entry_lt hmem i).1 hslot
      obtain ⟨s, hs, c, hc, hentry⟩ := Table.exists_candidate_of_mem_admission hin
      -- The candidate is the adept itself, which passed the check of its size.
      obtain rfl := List.inj_on_of_nodup_map h.nodup_entries hs hmem hentry
      obtain ⟨-, e, m, he, hm, -, hsmall, -⟩ := Table.candidate?_eq_some hc
      rw [options_after] at hsmall
      have hsize : bytesAt (after options (.sweep kind :: past)).entries i = m.size := by
        have hsame : bytesAt (after options (.sweep kind :: past)).entries i
            = bytesAt (after options past).entries i :=
          bytesAt_resetEntries h.nodup_entries kind _ i
        have he : (after options past).entries[i]? = some e := he
        rw [hsame, bytesAt, he, Option.elim_some, Entry.size, hm, Option.elim_some]
      exact hsize ▸ hsmall rfl

/-- The sizes of records are the charges of the slots that are records. -/
theorem sum_records_eq (s : TableState) :
    (s.table.records.map (bytesAt s.entries)).sum
      = (s.table.slots.map fun p =>
        if p.2.isAdept then 0 else bytesAt s.entries p.2.entry).sum := by
  unfold Table.records
  induction s.table.slots with
  | nil => rfl
  | cons p rest ih =>
    rw [List.filterMap_cons, List.map_cons, List.sum_cons, ← ih]
    rcases p.2.isAdept with - | -
    · rfl
    · rw [if_pos rfl, if_pos rfl, Nat.zero_add]

/-- A record is charged for its result, with the overhead of a record, exactly where the result is
no larger than the first report of its computation. Where that is so of every record, all that is
held is within the budget, and no result is larger than a record may be. -/
theorem charged_iff (options : CacheOptions) (past : List TableEvent)
    (hword : (past.map TableEvent.reportedBytes).sum ≤ Word.max) :
    let s := after options past
    (∀ key i computed, s.slot? key = some (.cached i) →
      recorded options key past = some computed →
        ∃ first, measured options key past = some first
          ∧ (computed.size + recordOverhead ≤ bytesAt s.entries i ↔ computed.size ≤ first.size))
      ∧ ((∀ key i computed first, s.slot? key = some (.cached i) →
          recorded options key past = some computed → measured options key past = some first →
            computed.size ≤ first.size) →
        (s.table.slots.map (heldBytes options past)).sum ≤ options.cacheSize
          ∧ ∀ p ∈ s.table.slots, heldBytes options past p ≤ options.maxRecordSize) := by
  intro s
  have h : s.Consistent := after_consistent options past
  refine ⟨fun key i computed hslot hrecorded => ?_, fun hsmall => ?_⟩
  · obtain ⟨first, hfirst, hbytes⟩ := bytesAt_eq hword hslot
    exact ⟨first, hfirst, hbytes ▸ Nat.add_le_add_iff_right⟩
  · have hheld : ∀ p ∈ s.table.slots, heldBytes options past p
        ≤ if p.2.isAdept then 0 else bytesAt s.entries p.2.entry := by
      rintro ⟨key, slot⟩ hp
      rcases slot with i | i
      · exact Nat.le_refl 0
      · have hslot : s.slot? key = some (.cached i) := h.slot?_eq_some_iff.2 hp
        obtain ⟨first, hfirst, hbytes⟩ := bytesAt_eq hword hslot
        show (recorded options key past).elim 0 (·.size) ≤ bytesAt s.entries i
        rcases hrecorded : recorded options key past with - | computed
        · exact Nat.zero_le _
        · have hle := hsmall key i computed first hslot hrecorded hfirst
          rw [hbytes]
          exact Nat.le_add_right_of_le hle
    have hb : s.Balanced (answered options past) := after_balanced hword
    refine ⟨?_, fun p hp => (hheld p hp).trans ?_⟩
    · calc (s.table.slots.map (heldBytes options past)).sum
          ≤ (s.table.slots.map fun p =>
              if p.2.isAdept then 0 else bytesAt s.entries p.2.entry).sum := List.sum_le_sum hheld
        _ = s.table.statistics.usedBytes := (hb.usedBytes.trans (sum_records_eq s)).symm
        _ ≤ options.cacheSize := options_after options past ▸ hb.budget
    · obtain ⟨key, slot⟩ := p
      rcases slot with i | i
      · exact Nat.zero_le _
      · exact bytesAt_le_maxRecordSize (h.slot?_eq_some_iff.2 hp)

/-- A run in which a computation has one result before it is promoted and another one after. Each
report tells the size of its own result. -/
def remeasured (first later : List ℕ) : List TableEvent :=
  let lookup (snapshots : Digest) : TableEvent := .lookup (.word 7) .sorted snapshots
  let observe (handle : ℕ) (snapshots : Digest) (order : List ℕ) : TableEvent :=
    .observe handle
      { cost := 10000, size := MergedRecords.footprint order, snapshots, payload := .sorted order }
  [observe 3 (.word 2) later, lookup (.word 2), .sweep .periodic, observe 0 (.word 1) first,
    lookup (.word 1)]

/-- A result that has shrunk is within the budget. -/
theorem charged_iff_shrunk :
    let options : CacheOptions := { cacheSize := 200, maxRecordSize := 200, minimalUsage := 0 }
    let past := remeasured (List.range 30) (List.range 10)
    56 + recordOverhead ≤ bytesAt (after options past).entries 0
      ∧ ((after options past).table.slots.map (heldBytes options past)).sum ≤ 200 := by
  intro options past
  have hslots : (after options past).table.slots = [(.word 7, .cached 0)] := by cbv
  have hslot : (after options past).slot? (.word 7) = some (.cached 0) := by cbv
  have hmeasured : (measured options (.word 7) past).map (·.size) = some 136 := by decide +kernel
  have hrecorded : (recorded options (.word 7) past).map (·.size) = some 56 := by decide +kernel
  obtain ⟨computed, hcomputed, hlater⟩ := Option.map_eq_some_iff.1 hrecorded
  obtain ⟨hcharged, hbudget⟩ := charged_iff options past (by decide +kernel)
  obtain ⟨first, hfirst, hiff⟩ := hcharged (.word 7) 0 computed hslot hcomputed
  have hsize : first.size = 136 := by
    rw [hfirst] at hmeasured
    exact Option.some.inj hmeasured
  refine ⟨hlater ▸ hiff.2 (by omega), (hbudget ?_).1⟩
  intro key i computed' first' hslot' hcomputed' hfirst'
  -- No other key has a record.
  have hmem := (after_consistent options past).slot?_eq_some_iff.1 hslot'
  rw [hslots, List.mem_singleton] at hmem
  obtain ⟨rfl, -⟩ := Prod.mk.inj hmem
  obtain rfl := Option.some.inj (hcomputed.symm.trans hcomputed')
  obtain rfl := Option.some.inj (hfirst.symm.trans hfirst')
  omega

/-- A result that has grown is charged less than its size, and it exceeds both the budget and the
size that a record may have. -/
theorem not_charged_grown :
    let options : CacheOptions := { cacheSize := 200, maxRecordSize := 200, minimalUsage := 0 }
    let past := remeasured (List.range 10) (List.range 50)
    ¬((∀ key i computed, (after options past).slot? key = some (.cached i) →
        recorded options key past = some computed →
          computed.size + recordOverhead ≤ bytesAt (after options past).entries i)
      ∨ ((after options past).table.slots.map (heldBytes options past)).sum ≤ options.cacheSize
      ∨ ∀ p ∈ (after options past).table.slots,
        heldBytes options past p ≤ options.maxRecordSize) := by
  intro options past
  have hslots : (after options past).table.slots = [(.word 7, .cached 0)] := by cbv
  have hslot : (after options past).slot? (.word 7) = some (.cached 0) := by cbv
  have hcharged : bytesAt (after options past).entries 0 = 120 := by decide +kernel
  have hheld : heldBytes options past (.word 7, .cached 0) = 216 := by decide +kernel
  have hrecorded : (recorded options (.word 7) past).map (·.size) = some 216 := by decide +kernel
  rintro (hcharge | hbudget | hmax)
  · obtain ⟨computed, hcomputed, hsize⟩ := Option.map_eq_some_iff.1 hrecorded
    have hle := hcharge (.word 7) 0 computed hslot hcomputed
    rw [hsize, hcharged] at hle
    exact absurd hle (by decide)
  · rw [hslots, List.map_singleton, List.sum_singleton, hheld] at hbudget
    exact absurd hbudget (by decide)
  · have hle := hmax (.word 7, .cached 0) (hslots ▸ List.mem_singleton_self _)
    rw [hheld] at hle
    exact absurd hle (by decide)

end TableState

end EntityQuery
