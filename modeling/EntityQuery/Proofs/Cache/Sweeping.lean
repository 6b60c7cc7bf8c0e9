import EntityQuery.Cache.Sweep
import Mathlib

/-!
# What a sweep does

A sweep resets counters, lets candidates in, and judges every slot. Counters: each slot that the
sweep looks at has those of its entry reset, and nothing else changes in the entries
(`Table.getElem?_resetEntries`). Candidates: some of them are let in, and the bytes that they take
are the sum of their sizes, as long as all sizes together are a word
(`Admission.ofCandidates_spec`). Slots: what is found under a key is what the verdict on its slot
leaves (`Table.lookup_sweep`), and the records that are left are the candidates that were let in
(`Table.records_sweep`).
-/

namespace EntityQuery

/-- An adept is one. -/
@[simp] theorem Slot.isAdept_adept (i : EntryId) : (adept i).isAdept = true := rfl

/-- A record is no adept. -/
@[simp] theorem Slot.isAdept_cached (i : EntryId) : (cached i).isAdept = false := rfl

/-! ## Letting candidates in -/

namespace Candidate

/-- The order of candidates is transitive. -/
theorem ranksBefore_trans (a b c : Candidate) (hab : a.ranksBefore b) (hbc : b.ranksBefore c) :
    a.ranksBefore c := by
  simp only [ranksBefore, Bool.or_eq_true, Bool.and_eq_true, decide_eq_true_eq, beq_iff_eq] at *
  rcases hab with hab | ⟨hab, hkeys⟩
  · exact .inl (by omega)
  · rcases hbc with hbc | ⟨hbc, hkeys'⟩
    · exact .inl (by omega)
    · exact .inr ⟨hab.trans hbc, Digest.le_trans _ _ _ hkeys hkeys'⟩

/-- Of two candidates one ranks before the other. -/
theorem ranksBefore_total (a b : Candidate) : a.ranksBefore b || b.ranksBefore a := by
  simp only [ranksBefore, Bool.or_eq_true, Bool.and_eq_true, decide_eq_true_eq, beq_iff_eq]
  rcases Nat.lt_trichotomy a.ratio b.ratio with hlt | heq | hgt
  · exact .inr (.inl hlt)
  · rcases Bool.or_eq_true_iff.1 (Digest.le_total a.key b.key) with hle | hle
    · exact .inl (.inr ⟨heq, hle⟩)
    · exact .inr (.inr ⟨heq.symm, hle⟩)
  · exact .inl (.inl hgt)

end Candidate

namespace Admission

variable {budget : ℕ} {candidates : List Candidate} {c : Candidate}

/-- Letting candidates in, one after the other. -/
theorem foldl_letIn (budget : ℕ) (candidates : List Candidate) (a : Admission) :
    ∃ admitted : List Candidate, admitted.Sublist candidates
      ∧ (candidates.foldl (letIn budget) a).entries
        = (admitted.map Candidate.entry).reverse ++ a.entries
      ∧ (candidates.foldl (letIn budget) a).usedBytes
        ≤ a.usedBytes + (admitted.map Candidate.size).sum
      ∧ (a.usedBytes ≤ budget → a.usedBytes + (candidates.map Candidate.size).sum ≤ Word.max →
        (candidates.foldl (letIn budget) a).usedBytes
            = a.usedBytes + (admitted.map Candidate.size).sum
          ∧ (candidates.foldl (letIn budget) a).usedBytes ≤ budget) := by
  induction candidates generalizing a with
  | nil => exact ⟨[], .slnil, rfl, Nat.le_refl _, fun hbudget _ => ⟨rfl, hbudget⟩⟩
  | cons c rest ih =>
    rw [List.foldl_cons, List.map_cons, List.sum_cons]
    by_cases hfits : Word.satAdd a.usedBytes c.size ≤ budget
    · obtain ⟨admitted, hsublist, hentries, hle, hbytes⟩ :=
        ih { usedBytes := Word.wrap (a.usedBytes + c.size), entries := c.entry :: a.entries }
      rw [letIn, if_pos hfits]
      refine ⟨c :: admitted, hsublist.cons_cons c, ?_, ?_, fun hbudget hword => ?_⟩
      · rw [hentries]
        simp
      · have hwrap : Word.wrap (a.usedBytes + c.size) ≤ a.usedBytes + c.size := Nat.mod_le _ _
        dsimp only at hle
        rw [List.map_cons, List.sum_cons]
        omega
      · -- The sum is a word, so it neither stops nor starts over.
        have hsum : a.usedBytes + c.size ≤ Word.max := by omega
        have hsat : Word.satAdd a.usedBytes c.size = a.usedBytes + c.size := Nat.min_eq_left hsum
        have hwrap : Word.wrap (a.usedBytes + c.size) = a.usedBytes + c.size :=
          Word.wrap_of_lt (Nat.lt_of_le_of_lt hsum (by decide))
        rw [hwrap] at hbytes ⊢
        dsimp only at hbytes
        rw [List.map_cons, List.sum_cons, ← Nat.add_assoc]
        exact hbytes (hsat ▸ hfits) (by omega)
    · obtain ⟨admitted, hsublist, hentries, hle, hbytes⟩ := ih a
      rw [letIn, if_neg hfits]
      exact ⟨admitted, hsublist.cons c, hentries, hle,
        fun hbudget hword => hbytes hbudget (by omega)⟩

/-- Some of the candidates are let in. The bytes that they take are within the budget. -/
theorem ofCandidates_spec (budget : ℕ) (candidates : List Candidate) :
    ∃ admitted : List Candidate, admitted.Subperm candidates
      ∧ (ofCandidates budget candidates).entries.Perm (admitted.map Candidate.entry)
      ∧ ((candidates.map Candidate.size).sum ≤ Word.max →
        (ofCandidates budget candidates).usedBytes = (admitted.map Candidate.size).sum
          ∧ (ofCandidates budget candidates).usedBytes ≤ budget) := by
  have hsorted : (candidates.mergeSort Candidate.ranksBefore).Perm candidates :=
    List.mergeSort_perm _ _
  obtain ⟨admitted, hsublist, hentries, -, hbytes⟩ :=
    foldl_letIn budget (candidates.mergeSort Candidate.ranksBefore) {}
  refine ⟨admitted, hsublist.subperm.trans hsorted.subperm, ?_, fun hword => ?_⟩
  · rw [List.append_nil] at hentries
    rw [ofCandidates, hentries]
    exact List.reverse_perm _
  · have hsum : ((candidates.mergeSort Candidate.ranksBefore).map Candidate.size).sum
        = (candidates.map Candidate.size).sum := (hsorted.map Candidate.size).sum_eq
    have hempty : ({} : Admission).usedBytes = 0 := rfl
    rw [hsum, hempty, Nat.zero_add, Nat.zero_add] at hbytes
    exact hbytes (Nat.zero_le _) hword

/-- A candidate that is not let in does not fit beside those let in that rank before it. -/
theorem budget_lt_of_not_mem (hc : c ∈ candidates)
    (hout : c.entry ∉ (ofCandidates budget candidates).entries) :
    ∃ better : List Candidate, better.Subperm candidates
      ∧ (∀ b ∈ better, b.ranksBefore c = true ∧ b.entry ∈ (ofCandidates budget candidates).entries)
      ∧ budget < (better.map Candidate.size).sum + c.size := by
  have hsorted : (candidates.mergeSort Candidate.ranksBefore).Perm candidates :=
    List.mergeSort_perm _ _
  have hranked := List.pairwise_mergeSort Candidate.ranksBefore_trans Candidate.ranksBefore_total
    candidates
  obtain ⟨before, behind, hsplit⟩ := List.append_of_mem (hsorted.mem_iff.2 hc)
  -- The candidates before it are let in first, then it is its turn.
  obtain ⟨better, hbetter, hentries, hbytes, -⟩ := foldl_letIn budget before {}
  obtain ⟨rest, -, hrest, -⟩ :=
    foldl_letIn budget behind ((before.foldl (letIn budget) {}).letIn budget c)
  rw [← List.foldl_cons, ← List.foldl_append, ← hsplit] at hrest
  rw [List.append_nil] at hentries
  have hfull : ¬Word.satAdd (before.foldl (letIn budget) {}).usedBytes c.size ≤ budget := by
    intro hfits
    refine hout ?_
    rw [ofCandidates, hrest, letIn, if_pos hfits]
    exact List.mem_append_right _ List.mem_cons_self
  rw [letIn, if_neg hfull, hentries] at hrest
  refine ⟨better, ?_, fun b hb => ⟨?_, ?_⟩, ?_⟩
  · have hprefix : before.Sublist (candidates.mergeSort Candidate.ranksBefore) :=
      hsplit ▸ List.sublist_append_left before (c :: behind)
    exact (hbetter.trans hprefix).subperm.trans hsorted.subperm
  · rw [hsplit, List.pairwise_append] at hranked
    exact hranked.2.2 b (hbetter.subset hb) c List.mem_cons_self
  · rw [ofCandidates, hrest]
    refine List.mem_append_right _ (List.mem_reverse.2 ?_)
    exact List.mem_map_of_mem hb
  · have hsat : Word.satAdd (before.foldl (letIn budget) {}).usedBytes c.size
        ≤ (before.foldl (letIn budget) {}).usedBytes + c.size := Nat.min_le_left _ _
    have hempty : ({} : Admission).usedBytes = 0 := rfl
    omega

end Admission

namespace Table

/-! ## Counters -/

/-- Each entry that has a slot the sweep looks at has its counters reset, and no other. -/
theorem getElem?_resetEntries {t : Table} (hnodup : (t.slots.map (·.2.entry)).Nodup)
    (kind : SweepKind) (entries : Entries) (i : EntryId) :
    (t.resetEntries kind entries)[i]?
      = if ∃ s ∈ t.slots, s.2.entry = i ∧ resetsUsage kind s.2 = true
        then entries[i]?.map Entry.sweep else entries[i]? := by
  unfold resetEntries
  revert hnodup
  induction t.slots generalizing entries with
  | nil => simp
  | cons s rest ih =>
    intro hnodup
    obtain ⟨hfresh, hrest⟩ := List.nodup_cons.1 hnodup
    rw [List.foldl_cons, ih _ hrest]
    simp only [List.exists_mem_cons_iff]
    by_cases hreset : resetsUsage kind s.2 = true
    · rw [if_pos hreset, Array.getElem?_modify]
      by_cases hentry : s.2.entry = i
      · -- No other slot has the entry of this one, so its counters are reset only once.
        have hothers : ¬∃ s' ∈ rest, s'.2.entry = i ∧ resetsUsage kind s'.2 = true := by
          rintro ⟨s', hs', hentry', -⟩
          exact hfresh (List.mem_map.2 ⟨s', hs', hentry'.trans hentry.symm⟩)
        rw [if_neg hothers, if_pos hentry, if_pos (.inl ⟨hentry, hreset⟩)]
      · rw [if_neg hentry]
        simp only [hentry, false_and, false_or]
    · simp only [hreset, and_false, false_or, if_false, Bool.false_eq_true]

/-- The entry of a slot has its counters reset where the sweep looks at the slot. -/
theorem getElem?_resetEntries_of_mem {t : Table} (hnodup : (t.slots.map (·.2.entry)).Nodup)
    (kind : SweepKind) (entries : Entries) {s : Digest × Slot} (hs : s ∈ t.slots) :
    (t.resetEntries kind entries)[s.2.entry]?
      = entries[s.2.entry]?.map fun e => if resetsUsage kind s.2 then e.sweep else e := by
  rw [getElem?_resetEntries hnodup]
  -- Only this slot has its entry.
  have honly : (∃ s' ∈ t.slots, s'.2.entry = s.2.entry ∧ resetsUsage kind s'.2 = true)
      ↔ resetsUsage kind s.2 = true := by
    constructor
    · rintro ⟨s', hs', hentry, hreset⟩
      obtain rfl := List.inj_on_of_nodup_map hnodup hs' hs hentry
      exact hreset
    · intro hreset
      exact ⟨s, hs, rfl, hreset⟩
  by_cases hreset : resetsUsage kind s.2 = true
  · rw [if_pos (honly.2 hreset)]
    simp [hreset]
  · rw [if_neg (fun h => hreset (honly.1 h))]
    simp [hreset]

/-- A sweep ends no entries. -/
theorem size_resetEntries (t : Table) (kind : SweepKind) (entries : Entries) :
    (t.resetEntries kind entries).size = entries.size := by
  unfold resetEntries
  induction t.slots generalizing entries with
  | nil => rfl
  | cons s rest ih =>
    rw [List.foldl_cons, ih]
    split_ifs
    · exact Array.size_modify
    · rfl

/-! ## Verdicts -/

/-- The candidates that a sweep lets in. -/
def admission (t : Table) (kind : SweepKind) (entries : Entries) : Admission :=
  .ofCandidates t.options.cacheSize (t.slots.filterMap fun s => t.candidate? kind entries s.1 s.2)

/-- What a sweep does with a slot. -/
def judge (t : Table) (kind : SweepKind) (held : EntryId → Bool) (entries : Entries)
    (slot : Slot) : Verdict :=
  t.verdict kind held entries (t.admission kind entries) slot

variable {t : Table} {kind : SweepKind} {held : EntryId → Bool} {entries : Entries}

/-- A slot that is kept stays what it is. -/
@[simp] theorem applyVerdict_keep (slot : Slot) : applyVerdict slot .keep = some slot := rfl

/-- A slot that is promoted becomes a record. -/
@[simp] theorem applyVerdict_promote (slot : Slot) :
    applyVerdict slot .promote = some (.cached slot.entry) := rfl

/-- A slot that is evicted is gone. -/
@[simp] theorem applyVerdict_evict (slot : Slot) : applyVerdict slot .evict = none := rfl

/-- A slot that expires is gone. -/
@[simp] theorem applyVerdict_expire (slot : Slot) : applyVerdict slot .expire = none := rfl

/-- A slot that is discarded is gone. -/
@[simp] theorem applyVerdict_discard (slot : Slot) : applyVerdict slot .discard = none := rfl

/-- The slots that a sweep leaves. -/
theorem slots_sweep (t : Table) (kind : SweepKind) (held : EntryId → Bool) (entries : Entries) :
    (t.sweep kind held entries).2.1.slots = t.slots.filterMap fun s =>
      (applyVerdict s.2 (t.judge kind held entries s.2)).map (s.1, ·) := by
  simp only [sweep, List.filterMap_map]
  rfl

/-- A slot that is left after a verdict has the entry that it had. -/
theorem entry_applyVerdict {slot slot' : Slot} {v : Verdict}
    (h : applyVerdict slot v = some slot') : slot'.entry = slot.entry := by
  rcases v with - | - | - | - | - <;> simp only [applyVerdict, reduceCtorEq, Option.some.injEq] at h
  · rw [h]
  · rw [← h]
    rfl

/-- An adept that is left was one before. -/
theorem eq_adept_of_applyVerdict {slot : Slot} {v : Verdict} {i : EntryId}
    (h : applyVerdict slot v = some (.adept i)) : slot = .adept i := by
  rcases v with - | - | - | - | - <;> simp [applyVerdict] at h
  exact h

/-- Under a key there is, after a sweep, what the verdict on its slot leaves. -/
theorem lookup_sweep (hnodup : (t.slots.map Prod.fst).Nodup) (kind : SweepKind)
    (held : EntryId → Bool) (entries : Entries) (key : Digest) :
    (t.sweep kind held entries).2.1.slots.lookup key
      = (t.slots.lookup key).bind fun slot =>
        applyVerdict slot (t.judge kind held entries slot) := by
  rw [slots_sweep]
  generalize t.judge kind held entries = judge
  revert hnodup
  induction t.slots with
  | nil => intro _; rfl
  | cons s rest ih =>
    intro hnodup
    obtain ⟨hfresh, hrest⟩ := List.nodup_cons.1 hnodup
    have ih := ih hrest
    rw [List.filterMap_cons, List.lookup_cons]
    by_cases hkey : key = s.1
    · subst hkey
      -- Where the slot is dropped, no other slot has its key.
      have hnone : rest.lookup s.1 = none := by
        rw [List.lookup_eq_none_iff]
        intro s' hs'
        have hne : s.1 ≠ s'.1 := fun h => hfresh (List.mem_map.2 ⟨s', hs', h.symm⟩)
        simp [hne]
      rw [hnone] at ih
      rcases hleft : applyVerdict s.2 (judge s.2) with - | slot
      · simpa [hleft] using ih
      · simp [hleft]
    · have hbeq : (key == s.1) = false := by simp [hkey]
      rcases hleft : applyVerdict s.2 (judge s.2) with - | slot
      · simpa [hbeq] using ih
      · simpa [hbeq, List.lookup_cons] using ih

/-- The verdict on a record. -/
theorem judge_cached {i : EntryId} {e : Entry} (he : entries[i]? = some e)
    (held : EntryId → Bool) :
    t.judge kind held entries (.cached i)
      = if t.isExpired kind e = true then .expire
        else if i ∈ (t.admission kind entries).entries then .keep else .evict := by
  have hi : entries[(Slot.cached i).entry]? = some e := he
  simp only [judge, verdict, hi, List.contains_iff_mem]

/-- The verdict on an adept. -/
theorem judge_adept {i : EntryId} {e : Entry} (he : entries[i]? = some e)
    (held : EntryId → Bool) :
    t.judge kind held entries (.adept i)
      = if i ∈ (t.admission kind entries).entries then .promote
        else if (t.isIdle e && !held i) = true then .discard else .keep := by
  have hi : entries[(Slot.adept i).entry]? = some e := he
  simp only [judge, verdict, hi, List.contains_iff_mem]

/-- What a sweep finds idle has not been used since the last one that looked. -/
theorem sinceSweep_eq_zero_of_isIdle {e : Entry} (h : t.isIdle e = true) :
    e.usage.sinceSweep = 0 := by
  unfold isIdle at h
  split_ifs at h
  · exact Usage.sinceSweep_eq_zero_of_sweep (of_decide_eq_true h)
  · exact Usage.idle_pos_iff.1 (of_decide_eq_true h)

/-! ## Candidates -/

/-- What makes a slot a candidate: its entry was measured, and it is a record that is not expired or
an adept that is worth it. -/
theorem candidate?_eq_some {key : Digest} {slot : Slot} {c : Candidate}
    (h : t.candidate? kind entries key slot = some c) :
    c.entry = slot.entry ∧ ∃ e m, entries[slot.entry]? = some e ∧ e.metrics = some m
      ∧ c.size = m.size ∧ (slot.isAdept = true → m.size ≤ t.options.maxRecordSize)
      ∧ (slot.isAdept = false → t.isExpired kind e = false) := by
  unfold candidate? at h
  simp only [bind, Option.bind_eq_some_iff] at h
  obtain ⟨e, he, m, hm, ratio, -, h⟩ := h
  rcases slot with i | i
  · simp only [Option.ite_none_right_eq_some, Option.some.injEq] at h
    obtain ⟨hworth, rfl⟩ := h
    simp only [Entry.isWorth, hm, Option.any_some, Bool.and_eq_true, decide_eq_true_eq] at hworth
    exact ⟨rfl, e, m, he, hm, rfl, fun _ => hworth.1, fun h => absurd h (by simp)⟩
  · simp only [Option.ite_none_left_eq_some, Option.some.injEq] at h
    obtain ⟨hexpired, rfl⟩ := h
    exact ⟨rfl, e, m, he, hm, rfl, fun h => absurd h (by simp),
      fun _ => by simpa using hexpired⟩

/-- The candidates have different entries, as the slots do. -/
theorem entries_candidates_sublist (t : Table) (kind : SweepKind) (entries : Entries) :
    ((t.slots.filterMap fun s => t.candidate? kind entries s.1 s.2).map Candidate.entry).Sublist
      (t.slots.map (·.2.entry)) := by
  induction t.slots with
  | nil => exact .slnil
  | cons s rest ih =>
    rw [List.map_cons, List.filterMap_cons]
    rcases hc : t.candidate? kind entries s.1 s.2 with - | c
    · exact ih.cons _
    · rw [List.map_cons, (candidate?_eq_some hc).1]
      exact ih.cons_cons _

/-- What is let in are candidates. -/
theorem exists_candidate_of_mem_admission {i : EntryId}
    (h : i ∈ (t.admission kind entries).entries) :
    ∃ s ∈ t.slots, ∃ c, t.candidate? kind entries s.1 s.2 = some c ∧ s.2.entry = i := by
  obtain ⟨admitted, hsubperm, hentries, -⟩ := Admission.ofCandidates_spec t.options.cacheSize
    (t.slots.filterMap fun s => t.candidate? kind entries s.1 s.2)
  obtain ⟨c, hc, rfl⟩ := List.mem_map.1 (hentries.subset h)
  obtain ⟨s, hs, hcandidate⟩ := List.mem_filterMap.1 (hsubperm.subset hc)
  exact ⟨s, hs, c, hcandidate, (candidate?_eq_some hcandidate).1.symm⟩

/-- Nothing is let in twice. -/
theorem nodup_admission (hnodup : (t.slots.map (·.2.entry)).Nodup) (kind : SweepKind)
    (entries : Entries) : (t.admission kind entries).entries.Nodup := by
  obtain ⟨admitted, hsubperm, hentries, -⟩ := Admission.ofCandidates_spec t.options.cacheSize
    (t.slots.filterMap fun s => t.candidate? kind entries s.1 s.2)
  obtain ⟨sorted, hsorted, hsublist⟩ := hsubperm
  have hcandidates := hnodup.sublist (t.entries_candidates_sublist kind entries)
  have hadmitted := (hsorted.map Candidate.entry).nodup_iff.1
    (hcandidates.sublist (hsublist.map Candidate.entry))
  exact hentries.nodup_iff.2 hadmitted

/-! ## The records that are left -/

/-- The entries of the records in a table. -/
def records (t : Table) : List EntryId :=
  t.slots.filterMap fun s => if s.2.isAdept then none else some s.2.entry

/-- The records are those with a slot of their own. -/
theorem mem_records {i : EntryId} : i ∈ t.records ↔ ∃ key, (key, .cached i) ∈ t.slots := by
  constructor
  · intro h
    obtain ⟨⟨key, slot⟩, hs, hslot⟩ := List.mem_filterMap.1 h
    rcases slot with j | j
    · simp at hslot
    · simp only [Slot.isAdept, Slot.entry, Bool.false_eq_true, if_false, Option.some.injEq] at hslot
      subst hslot
      exact ⟨key, hs⟩
  · rintro ⟨key, h⟩
    exact List.mem_filterMap.2 ⟨_, h, rfl⟩

/-- Records have different entries, as all slots do. -/
theorem records_sublist (t : Table) : t.records.Sublist (t.slots.map (·.2.entry)) := by
  unfold records
  induction t.slots with
  | nil => exact .slnil
  | cons s rest ih =>
    rw [List.map_cons, List.filterMap_cons]
    split_ifs
    · exact ih.cons _
    · exact ih.cons_cons _

/-- The slots that are left have different entries. -/
theorem entries_sweep_sublist (t : Table) (kind : SweepKind) (held : EntryId → Bool)
    (entries : Entries) : ((t.sweep kind held entries).2.1.slots.map (·.2.entry)).Sublist
      (t.slots.map (·.2.entry)) := by
  rw [slots_sweep]
  induction t.slots with
  | nil => exact .slnil
  | cons s rest ih =>
    rw [List.map_cons, List.filterMap_cons]
    rcases hleft : applyVerdict s.2 (t.judge kind held entries s.2) with - | slot
    · exact ih.cons _
    · rw [Option.map_some, List.map_cons, entry_applyVerdict hleft]
      exact ih.cons_cons _

/-- The slots that are left have different keys. -/
theorem keys_sweep_sublist (t : Table) (kind : SweepKind) (held : EntryId → Bool)
    (entries : Entries) : ((t.sweep kind held entries).2.1.slots.map Prod.fst).Sublist
      (t.slots.map Prod.fst) := by
  rw [slots_sweep]
  induction t.slots with
  | nil => exact .slnil
  | cons s rest ih =>
    rw [List.map_cons, List.filterMap_cons]
    rcases applyVerdict s.2 (t.judge kind held entries s.2) with - | slot
    · exact ih.cons _
    · exact ih.cons_cons _

/-- A slot is left as a record exactly where its entry was let in. -/
theorem applyVerdict_judge_eq_cached (hnodup : (t.slots.map (·.2.entry)).Nodup)
    (hentries : ∀ s ∈ t.slots, s.2.entry < entries.size) {s : Digest × Slot} (hs : s ∈ t.slots)
    (i : EntryId) :
    applyVerdict s.2 (t.judge kind held entries s.2) = some (.cached i)
      ↔ s.2.entry = i ∧ i ∈ (t.admission kind entries).entries := by
  obtain ⟨e, he⟩ : ∃ e, entries[s.2.entry]? = some e :=
    ⟨_, Array.getElem?_eq_getElem (hentries s hs)⟩
  obtain ⟨key, slot⟩ := s
  rcases slot with j | j
  · -- An adept becomes a record by being promoted.
    have he : entries[j]? = some e := he
    show applyVerdict (.adept j) (t.judge kind held entries (.adept j)) = _ ↔ j = i ∧ _
    rw [judge_adept he]
    by_cases hin : j ∈ (t.admission kind entries).entries
    · rw [if_pos hin]
      simp only [applyVerdict, Option.some.injEq, Slot.cached.injEq]
      exact ⟨fun h => ⟨h, h ▸ hin⟩, And.left⟩
    · rw [if_neg hin]
      constructor
      · intro h
        split_ifs at h <;> simp [applyVerdict] at h
      · rintro ⟨rfl, h⟩
        exact absurd h hin
  · have he : entries[j]? = some e := he
    show applyVerdict (.cached j) (t.judge kind held entries (.cached j)) = _ ↔ j = i ∧ _
    rw [judge_cached he]
    by_cases hexpired : t.isExpired kind e = true
    · rw [if_pos hexpired]
      refine ⟨fun h => absurd h (by simp [applyVerdict]), ?_⟩
      -- What is expired is no candidate.
      rintro ⟨rfl, h⟩
      obtain ⟨s', hs', c, hc, hentry⟩ := exists_candidate_of_mem_admission h
      obtain rfl := List.inj_on_of_nodup_map hnodup hs' hs hentry
      obtain ⟨-, e', -, he', -, -, -, hfresh⟩ := candidate?_eq_some hc
      obtain rfl := Option.some.inj (he.symm.trans he')
      rw [hfresh rfl] at hexpired
      exact absurd hexpired (by simp)
    · rw [if_neg hexpired]
      by_cases hin : j ∈ (t.admission kind entries).entries
      · rw [if_pos hin]
        simp only [applyVerdict, Option.some.injEq, Slot.cached.injEq]
        exact ⟨fun h => ⟨h, h ▸ hin⟩, And.left⟩
      · rw [if_neg hin]
        refine ⟨fun h => absurd h (by simp [applyVerdict]), ?_⟩
        rintro ⟨rfl, h⟩
        exact absurd h hin

/-- After a sweep the records are what was let in. -/
theorem records_sweep (hnodup : (t.slots.map (·.2.entry)).Nodup)
    (hentries : ∀ s ∈ t.slots, s.2.entry < entries.size) (kind : SweepKind)
    (held : EntryId → Bool) :
    (t.sweep kind held entries).2.1.records.Perm (t.admission kind entries).entries := by
  have hrecords : (t.sweep kind held entries).2.1.records.Nodup :=
    (hnodup.sublist (t.entries_sweep_sublist kind held entries)).sublist (records_sublist _)
  refine (List.perm_ext_iff_of_nodup hrecords (nodup_admission hnodup kind entries)).2 fun i => ?_
  rw [mem_records, slots_sweep]
  constructor
  · rintro ⟨key, h⟩
    obtain ⟨s, hs, hleft⟩ := List.mem_filterMap.1 h
    obtain ⟨slot, hslot, hpair⟩ := Option.map_eq_some_iff.1 hleft
    obtain rfl := (Prod.mk.inj hpair).2
    exact ((applyVerdict_judge_eq_cached hnodup hentries hs i).1 hslot).2
  · intro h
    obtain ⟨s, hs, -, -, hentry⟩ := exists_candidate_of_mem_admission h
    have hslot : applyVerdict s.2 (t.judge kind held entries s.2) = some (.cached i) :=
      (applyVerdict_judge_eq_cached hnodup hentries hs i).2 ⟨hentry, h⟩
    exact ⟨s.1, List.mem_filterMap.2 ⟨s, hs, by rw [hslot]; rfl⟩⟩

end Table

end EntityQuery
