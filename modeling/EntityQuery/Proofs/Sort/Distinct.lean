import EntityQuery.Proofs.Sort.Slice

/-!
# Sorted keys are distinct

What a chain gives are keys of the set that it orders, and none of them twice. This holds of any
window and whatever the comparators were initialized with: a sorter may list what it likes, but a
stage drops the keys that are not left and those that were listed before (`Sorter.slice_sifts`).

Between two stages, the keys that are written are distinct and none of them is left
(`SortContext.Progress.Sifted`), so the next stage cannot write one of them again.
-/

namespace EntityQuery

/-! ## One stage -/

/-- Whether a stage slices a list of distinct keys, all of which are left. -/
def SortContext.Sifts (c : SortContext) (out : List ℕ) (q : SortContext.Progress) : Prop :=
  ∃ ordered : List ℕ, ordered.Nodup ∧ (∀ k ∈ ordered, k ∈ c.keys) ∧ q = c.slicePart ordered out

/-- A stage that lists keys that are left slices them without their repetitions. -/
theorem SortContext.sifts_slicePart {c : SortContext} {listed : List ℕ} (out : List ℕ)
    (h : ∀ k ∈ listed, k ∈ c.keys) : c.Sifts out (c.slicePart listed out) := by
  refine ⟨listed.eraseDups, nodup_eraseDups listed, fun k hk => h k (List.mem_eraseDups.mp hk), ?_⟩
  simp only [SortContext.slicePart, firstOccurrences_eq, eraseDups_of_nodup (nodup_eraseDups _)]

/-- Where a sequence is restricted to a set, it lists keys of the set. -/
theorem CandidateSet.mem_of_mem_restrict {keys : CandidateSet} {order : List ℕ} {k : ℕ}
    (h : k ∈ keys.restrict order) : k ∈ keys := by
  rw [restrict_eq] at h
  exact of_decide_eq_true (List.mem_filter.mp h).2

/-- Pairs whose first parts are in a set list keys of the set, however they are sorted. -/
theorem CandidateSet.mem_of_mem_pairs {keys : CandidateSet} {pairs : List (ℕ × ℕ)}
    {le : ℕ × ℕ → ℕ × ℕ → Bool} {k : ℕ}
    (h : k ∈ ((pairs.filter fun p => keys.table.contains p.1).mergeSort le).map (·.1)) :
    k ∈ keys := by
  obtain ⟨p, hp, rfl⟩ := List.mem_map.mp h
  exact CandidateSet.contains_table.mp (List.mem_filter.mp (List.mem_mergeSort.mp hp)).2

/-- Whatever it orders by, a sorter that succeeds slices distinct keys that are left. -/
theorem Sorter.slice_sifts {s : Sorter} {m : Memory} {c : SortContext} {out : List ℕ}
    (h : c.Fits out) (hkeys : c.keys.isEmpty = false) (hwanted : c.isFilled = false)
    {q : SortContext.Progress} (hrun : ((s.slice c out).run m).1 = .ok q) : c.Sifts out q := by
  match s with
  | primaryKey =>
    obtain rfl : c.sliceAll c.keys.keys out = q := Except.ok.inj hrun
    exact ⟨_, c.keys.nodup_keys, fun k hk => hk,
      SortContext.sliceAll_eq_slicePart h (.refl _) hkeys hwanted⟩
  | reversedPrimaryKey =>
    obtain rfl : c.sliceAll c.keys.keys.reverse out = q := Except.ok.inj hrun
    exact ⟨_, List.nodup_reverse.mpr c.keys.nodup_keys, fun k hk => List.mem_reverse.mp hk,
      SortContext.sliceAll_eq_slicePart h (List.reverse_perm _) hkeys hwanted⟩
  | exact order =>
    obtain rfl : c.slicePart (c.keys.restrict order) out = q := Except.ok.inj hrun
    exact SortContext.sifts_slicePart out fun k hk => CandidateSet.mem_of_mem_restrict hk
  | preSorted records =>
    obtain rfl : c.slicePart (c.keys.restrict records.result.get) out = q := Except.ok.inj hrun
    exact SortContext.sifts_slicePart out fun k hk => CandidateSet.mem_of_mem_restrict hk
  | external pairs =>
    obtain rfl : c.slicePart (byExternal pairs c.keys) out = q := Except.ok.inj hrun
    exact SortContext.sifts_slicePart out fun k hk => CandidateSet.mem_of_mem_pairs hk
  | referenced comparator =>
    have hslice : (slice (referenced comparator) c out).run m
        = ((comparator.placement m).map fun p => c.slicePart (p.resolve c.keys) out, m) :=
      run_map_lift (comparator.placement m) _ m
    rw [hslice] at hrun
    rcases hplacement : comparator.placement m with e | p
    · rw [hplacement] at hrun
      cases hrun
    · rw [hplacement] at hrun
      obtain rfl : c.slicePart (p.resolve c.keys) out = q := Except.ok.inj hrun
      exact SortContext.sifts_slicePart out fun k hk => CandidateSet.mem_of_mem_pairs hk

/-! ## The stages of a chain -/

/-- What holds between two stages: the keys that are written are distinct keys of the set, and none
of them is left. -/
structure SortContext.Progress.Sifted (keys : CandidateSet) (p : SortContext.Progress) :
    Prop where
  /-- What is still wanted finds room. -/
  fits : p.context.Fits p.out
  /-- No key is written twice. -/
  nodup : (p.out.take p.context.peak).Nodup
  /-- What is written belongs to the set. -/
  mem : ∀ k ∈ p.out.take p.context.peak, k ∈ keys
  /-- What is left belongs to the set. -/
  left : ∀ k ∈ p.context.keys, k ∈ keys
  /-- No key that is written is left. -/
  written : ∀ k ∈ p.out.take p.context.peak, k ∉ p.context.keys

namespace SortContext.Progress.Sifted

variable {keys : CandidateSet} {p q : SortContext.Progress}

/-- A stage writes keys that are left, and they are left no more. -/
theorem step (h : p.Sifted keys) (hq : p.context.Sifts p.out q) : q.Sifted keys := by
  obtain ⟨ordered, hnodup, hmem, rfl⟩ := hq
  have hslice := SortContext.slicePart_eq h.fits hnodup hmem
  have hsub : ((ordered.drop p.context.start).take p.context.window).Sublist ordered :=
    (List.take_sublist _ _).trans (List.drop_sublist _ _)
  have hout : (p.context.slicePart ordered p.out).out.take
        (p.context.slicePart ordered p.out).context.peak
      = p.out.take p.context.peak
        ++ (ordered.drop p.context.start).take p.context.window := by
    rw [hslice]
    exact SortContext.take_write h.fits.peak_le _
  have hkeys : (p.context.slicePart ordered p.out).context.keys
      = p.context.keys.without ordered := by
    rw [hslice]
    rfl
  refine ⟨SortContext.slicePart_fits h.fits hnodup hmem, ?_, ?_, ?_, ?_⟩
  · rw [hout]
    exact h.nodup.append (hnodup.sublist hsub) fun k hold hnew =>
      h.written k hold (hmem k (hsub.subset hnew))
  · rw [hout]
    intro k hk
    rcases List.mem_append.mp hk with hold | hnew
    · exact h.mem k hold
    · exact h.left k (hmem k (hsub.subset hnew))
  · rw [hkeys]
    exact fun k hk => h.left k (CandidateSet.mem_without.mp hk).1
  · rw [hout, hkeys]
    intro k hk hleft
    obtain ⟨hleft, hother⟩ := CandidateSet.mem_without.mp hleft
    rcases List.mem_append.mp hk with hold | hnew
    · exact h.written k hold hleft
    · exact hother (hsub.subset hnew)

/-- Before the first stage, nothing is written. -/
theorem start (keys : CandidateSet) {start stop : ℕ} (h : start < stop) :
    Sifted keys { context := .ofWindow keys start stop
                  out := List.replicate (min (stop - start) keys.size) 0
                  skipped := [] } where
  fits := SorterChain.ofWindow_fits keys h
  nodup := List.nodup_nil
  mem _ hk := absurd hk List.not_mem_nil
  left _ hk := hk
  written _ hk := absurd hk List.not_mem_nil

/-- Sorters that run one after the other write distinct keys of the set. -/
theorem run {sorters : List Sorter} {m : Memory} (h : p.Sifted keys)
    (hrun : ((SorterChain.run sorters p).run m).1 = .ok q) : q.Sifted keys := by
  induction sorters generalizing m p with
  | nil =>
    obtain rfl : p = q := Except.ok.inj hrun
    exact h
  | cons s rest ih =>
    unfold SorterChain.run at hrun
    by_cases hdone : (p.context.keys.isEmpty || p.context.isFilled) = true
    · rw [if_pos hdone] at hrun
      obtain rfl : p = q := Except.ok.inj hrun
      exact h
    · rw [if_neg hdone] at hrun
      obtain ⟨hkeys, hwanted⟩ := Bool.or_eq_false_iff.mp (Bool.eq_false_of_not_eq_true hdone)
      rcases hslice : (s.slice p.context p.out).run m with ⟨e | left, m'⟩
      · rw [run_bind_of_error hslice] at hrun
        cases hrun
      · rw [run_bind_of_ok hslice] at hrun
        have hsifts := Sorter.slice_sifts h.fits hkeys hwanted (congrArg Prod.fst hslice)
        -- What was passed over does not matter for what is written.
        have hleft : Sifted keys { left with skipped := p.skipped ++ left.skipped } :=
          have hstep := h.step hsifts
          ⟨hstep.fits, hstep.nodup, hstep.mem, hstep.left, hstep.written⟩
        exact ih hleft hrun

end SortContext.Progress.Sifted

/-- A chain that succeeds gives distinct keys of the set that it orders, whatever the window is and
whatever its comparators are initialized with. -/
theorem SorterChain.nodup_sort {chain : SorterChain} {keys : CandidateSet} {start stop : ℕ}
    {m : Memory} {sorted skipped : List ℕ}
    (h : ((chain.sort keys start stop).run m).1 = .ok (sorted, skipped)) :
    sorted.Nodup ∧ ∀ k ∈ sorted, k ∈ keys := by
  rcases Nat.lt_or_ge start stop with hlt | hge
  · unfold sort at h
    rcases hrun : (run (sorters chain) { context := .ofWindow keys start stop
                                         out := List.replicate (min (stop - start) keys.size) 0
                                         skipped := [] }).run m with ⟨e | p, m'⟩
    · rw [run_bind_of_error hrun] at h
      cases h
    · rw [run_bind_of_ok hrun] at h
      obtain ⟨rfl, -⟩ : p.out.take p.context.peak = sorted ∧ p.skipped = skipped :=
        Prod.mk.inj (Except.ok.inj h)
      have hsifted := (SortContext.Progress.Sifted.start keys hlt).run (congrArg Prod.fst hrun)
      exact ⟨hsifted.nodup, hsifted.mem⟩
  · rw [sort_of_filled hge] at h
    obtain ⟨rfl, -⟩ : [] = sorted ∧ [] = skipped := Prod.mk.inj (Except.ok.inj h)
    exact ⟨List.nodup_nil, fun k hk => absurd hk List.not_mem_nil⟩

end EntityQuery
