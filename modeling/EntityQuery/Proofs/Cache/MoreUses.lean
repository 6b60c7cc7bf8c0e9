import EntityQuery.Proofs.Cache.Enumeration

/-!
# More uses

Uses raise the ratio of a computation and keep it from cooling, and that is all that a sweep sees of
them. Of two states that differ by some uses of one computation (`TableState.withUses`), the sweeps
therefore see the same contenders but for that one, which has a better rank in the second one
(`TableState.Consistent.ranksBefore_withUses`). What ranks before it there are the first of those
that rank before it in the other, so it finds no less room. More uses never cost a computation its
place, be it that of a record or that of an adept (`TableState.kept_withUses`).
-/

namespace EntityQuery

namespace Entry

variable (n : ℕ) (e : Entry)

/-- Uses are counted, and change nothing else. -/
theorem use_iterate :
    use^[n] e = { e with usage := { e.usage with
      times := e.usage.times + n, sinceSweep := e.usage.sinceSweep + n } } := by
  induction n with
  | zero => rfl
  | succ n ih =>
    rw [Function.iterate_succ_apply', ih]
    rfl

/-- With more uses a sweep is told of no more idleness. -/
theorem idle_use_le : (use^[n] e).usage.idle ≤ e.usage.idle := by
  rw [use_iterate]
  rcases n with - | n
  · exact Nat.le_refl _
  · have hused : e.usage.sinceSweep + (n + 1) ≠ 0 := Nat.succ_ne_zero _
    rw [Usage.idle, if_neg hused]
    exact Nat.zero_le _

/-- What is worth being promoted is so with more uses. -/
theorem isWorth_use {options : CacheOptions} (h : e.isWorth options = true) :
    (use^[n] e).isWorth options = true := by
  rw [use_iterate]
  obtain ⟨m, hm, hworth⟩ := (Option.any_eq_true _ _).1 h
  simp only [Bool.and_eq_true, decide_eq_true_eq] at hworth
  have hratio := spaceToPerformance_mono (Nat.le_add_right e.usage.times n) options.minimalUsage
    m.cost m.size
  refine (Option.any_eq_true _ _).2 ⟨m, hm, ?_⟩
  simp only [Bool.and_eq_true, decide_eq_true_eq]
  exact ⟨hworth.1, hworth.2.trans_le hratio⟩

end Entry

namespace TableState

/-- The state in which what has the slot of a key was used some more times. -/
def withUses (s : TableState) (key : Digest) (n : ℕ) : TableState :=
  { s with
    entries := (s.slot? key).elim s.entries fun slot => s.entries.modify slot.entry Entry.use^[n] }

variable {s : TableState} {key : Digest} {slot : Slot} {kind : SweepKind} {n : ℕ}

/-- The entry of the slot is used, and no other. -/
theorem getElem?_withUses (hslot : s.slot? key = some slot) (n : ℕ) (i : EntryId) :
    (s.withUses key n).entries[i]?
      = if slot.entry = i then s.entries[i]?.map Entry.use^[n] else s.entries[i]? := by
  rw [withUses, hslot, Option.elim_some, Array.getElem?_modify]

/-- The entry that is used. -/
theorem getElem?_withUses_slot (hslot : s.slot? key = some slot) {e : Entry}
    (he : s.entries[slot.entry]? = some e) (n : ℕ) :
    (s.withUses key n).entries[slot.entry]? = some (Entry.use^[n] e) := by
  rw [getElem?_withUses hslot, if_pos rfl, he, Option.map_some]

/-- No more uses change nothing. -/
theorem withUses_zero (s : TableState) (key : Digest) : s.withUses key 0 = s := by
  have hentries : (s.withUses key 0).entries = s.entries := by
    refine Array.ext_getElem? fun i => ?_
    rcases hslot : s.slot? key with - | slot
    · rw [withUses, hslot, Option.elim_none]
    · rw [getElem?_withUses hslot, Function.iterate_zero, Option.map_id_fun, id, ite_self]
  exact congrArg (fun entries => { s with entries }) hentries

/-- One use more. -/
theorem withUses_succ (hslot : s.slot? key = some slot) (n : ℕ) :
    s.withUses key (n + 1) = { s.withUses key n with
      entries := (s.withUses key n).entries.modify slot.entry Entry.use } := by
  have hentries : (s.withUses key (n + 1)).entries
      = (s.withUses key n).entries.modify slot.entry Entry.use := by
    refine Array.ext_getElem? fun i => ?_
    rw [Array.getElem?_modify, getElem?_withUses hslot, getElem?_withUses hslot,
      Function.iterate_succ']
    split_ifs
    · rw [Option.map_map]
    · rfl
  exact congrArg (fun entries => { s with entries }) hentries

/-- A handle to the slot counts such uses. -/
theorem after_replicate_use {options : CacheOptions} {past : List TableEvent} {handle : ℕ}
    {o : Observer} (ho : (after options past).handle? handle = some o)
    (hslot : (after options past).slot? key = some slot) (hentry : o.entry = slot.entry) (n : ℕ) :
    after options (List.replicate n (.use handle) ++ past)
      = (after options past).withUses key n := by
  induction n with
  | zero => exact (withUses_zero _ key).symm
  | succ n ih =>
    have hheld : ((after options past).withUses key n).handle? handle = some o := ho
    rw [List.replicate_succ, List.cons_append, after, ih, next_use hheld, hentry,
      withUses_succ hslot]

/-- More uses keep a table consistent. -/
theorem Consistent.withUses (h : s.Consistent) (key : Digest) (n : ℕ) :
    (s.withUses key n).Consistent := by
  rcases hslot : s.slot? key with - | slot
  · have hsame : s.withUses key n = s := by rw [TableState.withUses, hslot, Option.elim_none]
    rw [hsame]
    exact h
  · refine h.of_slots rfl ?_ (fun _ hp => hp) fun p _ e he hsuit => ?_
    · rw [TableState.withUses, hslot, Option.elim_some, Array.size_modify]
    · rw [getElem?_withUses hslot, he]
      split_ifs
      · refine ⟨_, rfl, ?_⟩
        rw [Entry.use_iterate]
        cases hp : p.2 <;> (rw [hp] at hsuit; exact hsuit)
      · exact ⟨e, rfl, hsuit⟩

/-! ## Contenders -/

/-- What has another entry competes as before. -/
theorem contenders_withUses_of_ne (kind : SweepKind) (hslot : s.slot? key = some slot) (n : ℕ)
    {slots : List (Digest × Slot)} (hne : ∀ p ∈ slots, p.2.entry ≠ slot.entry) :
    (slots.filter ((s.withUses key n).competes kind)).map (s.withUses key n).contender
      = (slots.filter (s.competes kind)).map s.contender := by
  have hentry : ∀ p ∈ slots, (s.withUses key n).entries[p.2.entry]? = s.entries[p.2.entry]? := by
    intro p hp
    rw [getElem?_withUses hslot, if_neg (hne p hp).symm]
  have hcompetes : ∀ p ∈ slots, (s.withUses key n).competes kind p = s.competes kind p := by
    intro p hp
    rw [competes, hentry p hp]
    rfl
  rw [List.filter_congr hcompetes]
  refine List.map_congr_left fun p hp => ?_
  have hp := (List.mem_filter.1 hp).1
  rw [contender, bytesAt, hentry p hp]
  rfl

/-- With more uses the slot still competes. -/
theorem competes_withUses (hslot : s.slot? key = some slot)
    (hcompetes : s.competes kind (key, slot) = true) (n : ℕ) :
    (s.withUses key n).competes kind (key, slot) = true := by
  obtain ⟨e, he, hcompetes⟩ := (Option.any_eq_true _ _).1 hcompetes
  refine (Option.any_eq_true _ _).2 ⟨_, getElem?_withUses_slot hslot he n, ?_⟩
  have htable : (s.withUses key n).table = s.table := rfl
  rw [htable]
  split_ifs at hcompetes ⊢ with hadept
  · exact e.isWorth_use n hcompetes
  · have hidle := e.idle_use_le n
    simp only [Table.isExpired, Bool.not_eq_true', Bool.and_eq_false_iff,
      decide_eq_false_iff_not] at hcompetes ⊢
    exact hcompetes.imp_right fun hcool hlt => hcool (hlt.trans_le hidle)

/-- With more uses the slot has a better rank, for the same size. -/
theorem ranksBefore_withUses (hslot : s.slot? key = some slot) (n : ℕ) :
    ((s.withUses key n).contender (key, slot)).ranksBefore (s.contender (key, slot)) = true
      ∧ ((s.withUses key n).contender (key, slot)).size = (s.contender (key, slot)).size := by
  have hused := getElem?_withUses hslot n slot.entry
  rw [if_pos rfl] at hused
  have hoptions : (s.withUses key n).table.options = s.table.options := rfl
  have hratio : (s.contender (key, slot)).ratio
      ≤ ((s.withUses key n).contender (key, slot)).ratio := by
    simp only [contender, hused, hoptions]
    rcases s.entries[slot.entry]? with - | e
    · exact Nat.le_refl _
    · rw [Option.map_some, Option.bind_some, Option.bind_some, Entry.use_iterate]
      rcases hm : e.metrics with - | m
      · simp [Entry.ratio?, hm]
      · simpa [Entry.ratio?, hm] using spaceToPerformance_mono (Nat.le_add_right e.usage.times n)
          s.table.options.minimalUsage m.cost m.size
  refine ⟨Candidate.ranksBefore_of_ratio_le rfl hratio, ?_⟩
  simp only [contender, bytesAt, hused]
  rcases s.entries[slot.entry]? with - | e
  · rfl
  · rw [Option.map_some, Option.elim_some, Option.elim_some, Entry.use_iterate]
    rfl

/-- What is let in competes. -/
theorem Consistent.competes_of_admitted (h : s.Consistent) {p : Digest × Slot}
    (hp : p ∈ s.table.slots) (hin : p.2.entry ∈ (s.table.admission kind s.entries).entries) :
    s.competes kind p = true := by
  obtain ⟨q, hq, c, hc, hentry⟩ := Table.exists_candidate_of_mem_admission hin
  obtain rfl := List.inj_on_of_nodup_map h.nodup_entries hq hp hentry
  rw [h.candidate?_eq hp] at hc
  exact (Option.ite_none_right_eq_some.1 hc).1

/-- What is let in is let in with more uses. -/
theorem Consistent.admitted_withUses (h : s.Consistent) (hslot : s.slot? key = some slot)
    (hin : slot.entry ∈ (s.table.admission kind s.entries).entries) (n : ℕ) :
    slot.entry ∈ (s.table.admission kind (s.withUses key n).entries).entries := by
  have hmem : (key, slot) ∈ s.table.slots := h.slot?_eq_some_iff.1 hslot
  have hcompetes : s.competes kind (key, slot) = true := h.competes_of_admitted hmem hin
  obtain ⟨front, back, hslots⟩ := List.append_of_mem hmem
  -- No other slot has the entry.
  have hne : ∀ p ∈ front ++ back, p.2.entry ≠ slot.entry := by
    intro p hp hentry
    have hnodup := h.nodup_entries
    rw [hslots, List.map_append, List.map_cons, List.nodup_middle, ← List.map_append] at hnodup
    exact (List.nodup_cons.1 hnodup).1 (List.mem_map.2 ⟨p, hp, hentry⟩)
  have hfront := contenders_withUses_of_ne kind hslot n fun p hp =>
    hne p (List.mem_append_left _ hp)
  have hback := contenders_withUses_of_ne kind hslot n fun p hp =>
    hne p (List.mem_append_right _ hp)
  have hcontenders : s.contenders kind = (front.filter (s.competes kind)).map s.contender
      ++ s.contender (key, slot) :: (back.filter (s.competes kind)).map s.contender := by
    rw [contenders, hslots, List.filter_append, List.filter_cons_of_pos hcompetes, List.map_append,
      List.map_cons]
  have hcontenders' : (s.withUses key n).contenders kind
      = (front.filter (s.competes kind)).map s.contender ++ (s.withUses key n).contender (key, slot)
        :: (back.filter (s.competes kind)).map s.contender := by
    have hslots' : (s.withUses key n).table.slots = front ++ (key, slot) :: back := hslots
    rw [contenders, hslots', List.filter_append,
      List.filter_cons_of_pos (competes_withUses hslot hcompetes n), List.map_append,
      List.map_cons, hfront, hback]
  obtain ⟨hranks, hsize⟩ := ranksBefore_withUses hslot n
  rw [h.admission_eq, hcontenders] at hin
  have htable : s.table = (s.withUses key n).table := rfl
  rw [htable, (h.withUses key n).admission_eq, hcontenders']
  have hkeys := h.nodup_contender_keys kind
  have hentries := h.nodup_contender_entries kind
  rw [hcontenders] at hkeys hentries
  exact Admission.mem_of_improved hkeys hentries rfl rfl hsize hranks hin

/-! ## What a sweep keeps -/

/-- A record stays one with more uses. -/
theorem Consistent.hasRecord_withUses (h : s.Consistent) (number : ℕ)
    (hrecord : (s.next number (.sweep kind)).hasRecord key = true) (n : ℕ) :
    ((s.withUses key n).next number (.sweep kind)).hasRecord key = true := by
  have hsome : (s.slot? key).isSome := by
    by_contra hnone
    rw [hasRecord, h.slot?_sweep, Option.not_isSome_iff_eq_none.1 hnone] at hrecord
    exact absurd hrecord Bool.false_ne_true
  obtain ⟨slot, hslot⟩ := Option.isSome_iff_exists.1 hsome
  have hmem : (key, slot) ∈ s.table.slots := h.slot?_eq_some_iff.1 hslot
  have hin := (h.hasRecord_sweep_iff hmem number kind).1 hrecord
  have hin' := h.admitted_withUses hslot hin n
  exact ((h.withUses key n).hasRecord_sweep_iff hmem number kind).2 hin'

/-- What a sweep keeps track of, it keeps track of with more uses. -/
theorem Consistent.tracked_withUses (h : s.Consistent) (number : ℕ)
    (htracked : (s.next number (.sweep kind)).slot? key ≠ none) (n : ℕ) :
    ((s.withUses key n).next number (.sweep kind)).slot? key ≠ none := by
  intro hgone
  have hused := h.withUses key n
  -- Whatever is a record in either run would be one in the second.
  have hrecord : (s.next number (.sweep kind)).hasRecord key = false := by
    by_contra hrecord
    have hstays := h.hasRecord_withUses number (Bool.eq_true_of_not_eq_false hrecord) n
    rw [hasRecord, hgone] at hstays
    exact absurd hstays Bool.false_ne_true
  obtain ⟨left, hleft⟩ := Option.ne_none_iff_exists'.1 htracked
  rw [hasRecord_eq hleft, Bool.not_eq_false'] at hrecord
  rw [h.slot?_sweep] at hleft
  obtain ⟨slot, hslot, hverdict⟩ := Option.bind_eq_some_iff.1 hleft
  obtain ⟨i, rfl⟩ : ∃ i, left = .adept i := by
    rcases left with i | i
    · exact ⟨i, rfl⟩
    · exact absurd hrecord Bool.false_ne_true
  obtain rfl := Table.eq_adept_of_applyVerdict hverdict
  obtain ⟨e, he, -⟩ := h.exists_entry hslot
  have he' : (s.withUses key n).entries[i]? = some (Entry.use^[n] e) :=
    getElem?_withUses_slot hslot he n
  have hslot' : (s.withUses key n).slot? key = some (.adept i) := hslot
  have hverdict' := hgone
  rw [hused.slot?_sweep, hslot', Option.bind_some, Table.judge_adept he'] at hverdict'
  split_ifs at hverdict' with hin hidle
  · exact absurd hverdict' (Option.some_ne_none _)
  · -- What is discarded was not used at all, so the two states are the same.
    have hunused := Table.sinceSweep_eq_zero_of_isIdle (Bool.and_eq_true_iff.1 hidle).1
    rw [Entry.use_iterate] at hunused
    obtain rfl : n = 0 := (Nat.add_eq_zero_iff.1 hunused).2
    rw [withUses_zero] at hgone
    exact htracked hgone
  · exact absurd hverdict' (Option.some_ne_none _)

/-- More uses never cost a computation its place: what a sweep leaves as a record it leaves as one
after more uses, and what it keeps track of it keeps track of then. -/
theorem kept_withUses {options : CacheOptions} {past : List TableEvent}
    (h : Arises options past s) (key : Digest) (kind : SweepKind) (n : ℕ) :
    let swept := s.next past.length (.sweep kind)
    let swept' := (s.withUses key n).next past.length (.sweep kind)
    (swept.hasRecord key = true → swept'.hasRecord key = true)
      ∧ (swept.slot? key ≠ none → swept'.slot? key ≠ none) :=
  ⟨fun hrecord => h.consistent.hasRecord_withUses _ hrecord n,
    fun htracked => h.consistent.tracked_withUses _ htracked n⟩

/-- An adept that was measured is promoted, and it is so when its handle has counted three more
uses. -/
theorem kept_withUses_threeUses :
    let options : CacheOptions := { minimalUsage := 0 }
    let computed : Computed :=
      { cost := 1000, size := 10, snapshots := .word 1, payload := .sorted [] }
    let past : List TableEvent := [.observe 0 computed, .lookup (.word 7) .sorted (.word 1)]
    let used := List.replicate 3 (.use 0) ++ past
    (after options (.sweep .anteroom :: past)).hasRecord (.word 7) = true
      ∧ (after options (.sweep .anteroom :: used)).hasRecord (.word 7) = true
      ∧ (after options (.sweep .anteroom :: used)).slot? (.word 7) ≠ none := by
  intro options computed past used
  have hheld : (after options past).handle? 0 = some (.adept 0) := by cbv
  have hslot : (after options past).slot? (.word 7) = some (.adept 0) := by cbv
  have hused := after_replicate_use hheld hslot rfl 3
  have hrecord : (after options (.sweep .anteroom :: past)).hasRecord (.word 7) = true := by cbv
  have htracked : (after options (.sweep .anteroom :: past)).slot? (.word 7) ≠ none := by
    rw [show (after options (.sweep .anteroom :: past)).slot? (.word 7) = some (.cached 0) by cbv]
    exact Option.some_ne_none _
  obtain ⟨hkept, hfollowed⟩ := kept_withUses (arises_after options past) (.word 7) .anteroom 3
  rw [← hused] at hkept hfollowed
  exact ⟨hrecord, hkept hrecord, hfollowed htracked⟩

end TableState

end EntityQuery
