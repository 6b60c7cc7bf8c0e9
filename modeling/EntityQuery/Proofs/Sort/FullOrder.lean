import EntityQuery.Sort.Chain
import Mathlib.Data.List.Nodup
import Mathlib.Tactic

/-!
# The full order of a chain

What a chain orders, without any window: each stage in turn emits those keys that it can order, in
its own order, and the keys that no stage has emitted follow ascending. The definition takes the
nested positions of entities as a parameter, so that it can be read before any comparator is
initialized. `SorterChain.fullOrder_perm` shows that the chain orders every key of its set once.
-/

namespace EntityQuery

/-! ## First occurrences -/

/-- The fold that collects first occurrences keeps what it has collected, and goes on with the keys
that it has not met. -/
theorem foldl_firstOccurrences (order : List ℕ) (seen : Std.HashSet ℕ) (found : Array ℕ)
    (h : ∀ k, seen.contains k ↔ k ∈ found.toList) :
    (order.foldl (fun (state : Std.HashSet ℕ × Array ℕ) k =>
        if state.1.contains k then state else (state.1.insert k, state.2.push k))
        (seen, found)).2.toList
      = found.toList ++ (order.filter fun k => decide (k ∉ found.toList)).eraseDups := by
  -- The set and the sequence hold the same keys, and they grow together.
  induction order generalizing seen found with
  | nil => simp
  | cons a rest ih =>
    rw [List.foldl_cons]
    by_cases ha : a ∈ found.toList
    · simp only [(h a).mpr ha, if_true]
      rw [ih seen found h, List.filter_cons_of_neg (by simpa using ha)]
    · have hseen : ¬seen.contains a := fun hc => ha ((h a).mp hc)
      simp only [hseen]
      have hinsert : ∀ k, (seen.insert a).contains k ↔ k ∈ (found.push a).toList := by
        intro k
        have hk := h k
        simp only [Std.HashSet.contains_insert, Bool.or_eq_true, beq_iff_eq, Array.toList_push,
          List.mem_append, List.mem_singleton]
        rw [hk, or_comm, eq_comm]
      have hrest : (rest.filter fun k => decide (k ∉ (found.push a).toList))
          = rest.filter fun k => !k == a && decide (k ∉ found.toList) := by
        refine List.filter_congr fun k _ => ?_
        rw [Bool.eq_iff_iff]
        simp [and_comm]
      rw [if_neg (by decide), ih _ _ hinsert, List.filter_cons_of_pos (by simpa using ha),
        List.eraseDups_cons, List.filter_filter, hrest, Array.toList_push, List.append_assoc]
      rfl

/-- A sequence at its first occurrences is the sequence without repetitions. -/
theorem firstOccurrences_eq (order : List ℕ) : firstOccurrences order = order.eraseDups := by
  have hfold := foldl_firstOccurrences order ∅ #[] (by simp)
  simpa [firstOccurrences] using hfold

/-- A sequence without its repetitions lists nothing twice. -/
theorem nodup_eraseDups (order : List ℕ) : order.eraseDups.Nodup := by
  match order with
  | [] => exact List.nodup_nil
  | a :: rest =>
    have hother := nodup_eraseDups (rest.filter fun b => !b == a)
    have ha : a ∉ (rest.filter fun b => !b == a).eraseDups := by
      intro hmem
      simpa using (List.mem_filter.mp (List.mem_eraseDups.mp hmem)).2
    rw [List.eraseDups_cons]
    exact List.nodup_cons.mpr ⟨ha, hother⟩
termination_by order.length
decreasing_by exact Nat.lt_succ_of_le (List.length_filter_le _ rest)

/-- A sequence that lists nothing twice has no repetitions to lose. -/
theorem eraseDups_of_nodup {order : List ℕ} (h : order.Nodup) : order.eraseDups = order := by
  induction order with
  | nil => rfl
  | cons a rest ih =>
    obtain ⟨ha, hrest⟩ := List.nodup_cons.mp h
    have hkeep : (rest.filter fun b => !b == a) = rest := by
      refine List.filter_eq_self.mpr fun b hb => ?_
      have hne : b ≠ a := fun hba => ha (hba ▸ hb)
      simp [hne]
    rw [List.eraseDups_cons, hkeep, ih hrest]

/-! ## Keys by rank -/

/-- The ranked keys are the given ones. -/
theorem byRank_perm (ranked : List (ℕ × ℕ)) : (byRank ranked).Perm (ranked.map (·.1)) :=
  (List.mergeSort_perm ranked rankNoLater).map _

/-- By rank, pairs come one no later than the next. -/
theorem mergeSort_rankNoLater_sorted (ranked : List (ℕ × ℕ)) :
    (ranked.mergeSort rankNoLater).Pairwise fun a b => rankNoLater a b = true := by
  refine List.pairwise_mergeSort (fun a b c hab hbc => ?_) (fun a b => ?_) ranked
  · simp only [rankNoLater, decide_eq_true_eq] at *
    omega
  · simp only [rankNoLater, Bool.or_eq_true, decide_eq_true_eq]
    omega

/-! ## What a stage emits -/

namespace CandidateSet

/-- The keys of a set that a list lacks. -/
def without (s : CandidateSet) (emitted : List ℕ) : CandidateSet :=
  s.filter fun k => decide (k ∉ emitted)

/-- Keys that are not emitted are left. -/
theorem mem_without {s : CandidateSet} {emitted : List ℕ} {k : ℕ} :
    k ∈ s.without emitted ↔ k ∈ s ∧ k ∉ emitted := by
  rw [without, mem_filter, decide_eq_true_iff]

/-- Taking away a set takes away the keys that it lists. -/
theorem diff_ofKeys (s : CandidateSet) (emitted : List ℕ) :
    s.diff (.ofKeys emitted) = s.without emitted := by
  rw [ext_iff_mem]
  intro k
  rw [mem_diff, mem_ofKeys, mem_without]

/-- Keys of a set that are emitted once, and the keys that are left, are the keys of the set. -/
theorem perm_without (s : CandidateSet) {emitted : List ℕ} (hnodup : emitted.Nodup)
    (hmem : ∀ k ∈ emitted, k ∈ s) : (emitted ++ (s.without emitted).keys).Perm s.keys := by
  have hemitted : emitted.Perm (s.keys.filter fun k => decide (k ∈ emitted)) := by
    refine (List.perm_ext_iff_of_nodup hnodup (s.nodup_keys.filter _)).mpr fun k => ?_
    rw [List.mem_filter, decide_eq_true_iff, ← mem_iff]
    exact ⟨fun hk => ⟨hmem k hk, hk⟩, And.right⟩
  have hleft : (s.without emitted).keys = s.keys.filter fun k => !decide (k ∈ emitted) := by
    refine List.filter_congr fun k _ => ?_
    rw [decide_not]
  rw [hleft]
  exact (hemitted.append_right _).trans (List.filter_append_perm _ s.keys)

end CandidateSet

namespace Sorter

/-- The keys of a set that a sorter can order, in its order. The position of an entity in the nested
order of a comparator, if there is one, is given by `position`. -/
def emits (position : Comparator → ℕ → Option ℕ) (s : Sorter) (keys : CandidateSet) : List ℕ :=
  match s with
  | exact order => (order.filter fun k => decide (k ∈ keys)).eraseDups
  | preSorted records => (records.result.get.filter fun k => decide (k ∈ keys)).eraseDups
  | external pairs => (byRank (pairs.filter fun p => decide (p.1 ∈ keys))).eraseDups
  | referenced c => byRank (keys.keys.filterMap fun k => (position c k).map (k, ·))
  | primaryKey => keys.keys
  | reversedPrimaryKey => keys.keys.reverse

/-- The keys with a position are among the keys of the set, each once. -/
theorem placed_sublist (position : ℕ → Option ℕ) (keys : List ℕ) :
    ((keys.filterMap fun k => (position k).map (k, ·)).map (·.1)).Sublist keys := by
  induction keys with
  | nil => simp
  | cons k rest ih =>
    rw [List.filterMap_cons]
    rcases position k with - | p
    · exact ih.cons k
    · exact ih.cons_cons k

variable (position : Comparator → ℕ → Option ℕ) (s : Sorter) (keys : CandidateSet)

/-- A stage emits no key twice. -/
theorem nodup_emits : (s.emits position keys).Nodup := by
  match s with
  | exact _ | preSorted _ | external _ => exact nodup_eraseDups _
  | referenced c =>
    have hplaced := placed_sublist (position c) keys.keys
    exact (byRank_perm _).nodup_iff.mpr (hplaced.nodup keys.nodup_keys)
  | primaryKey => exact keys.nodup_keys
  | reversedPrimaryKey => exact List.nodup_reverse.mpr keys.nodup_keys

/-- A stage emits keys of the set only. -/
theorem mem_of_mem_emits {k : ℕ} (h : k ∈ s.emits position keys) : k ∈ keys := by
  match s with
  | exact order | preSorted records =>
    rw [emits, List.mem_eraseDups, List.mem_filter, decide_eq_true_iff] at h
    exact h.2
  | external pairs =>
    rw [emits, List.mem_eraseDups, (byRank_perm _).mem_iff, List.mem_map] at h
    obtain ⟨p, hp, rfl⟩ := h
    rw [List.mem_filter, decide_eq_true_iff] at hp
    exact hp.2
  | referenced c =>
    rw [emits, (byRank_perm _).mem_iff] at h
    exact (placed_sublist (position c) keys.keys).subset h
  | primaryKey => exact h
  | reversedPrimaryKey => exact List.mem_reverse.mp h

end Sorter

/-! ## The full order -/

namespace SorterChain

/-- The order of all keys of a set: what each stage emits of the keys that the stages before it
left, and then the keys that all stages left. -/
def fullOrder (position : Comparator → ℕ → Option ℕ) : SorterChain → CandidateSet → List ℕ
  | [], keys => keys.keys
  | stage :: rest, keys =>
    let emitted := stage.sorter.emits position keys
    emitted ++ fullOrder position rest (keys.without emitted)

/-- A chain orders every key of the set, and each of them once. -/
theorem fullOrder_perm (position : Comparator → ℕ → Option ℕ) (chain : SorterChain)
    (keys : CandidateSet) : (fullOrder position chain keys).Perm keys.keys := by
  induction chain generalizing keys with
  | nil => exact List.Perm.refl _
  | cons stage rest ih =>
    have hnodup := stage.sorter.nodup_emits position keys
    have hmem : ∀ k ∈ stage.sorter.emits position keys, k ∈ keys :=
      fun k hk => stage.sorter.mem_of_mem_emits position keys hk
    exact ((ih _).append_left _).trans (keys.perm_without hnodup hmem)

/-- There are as many keys in the order as in the set. -/
theorem length_fullOrder (position : Comparator → ℕ → Option ℕ) (chain : SorterChain)
    (keys : CandidateSet) : (fullOrder position chain keys).length = keys.size :=
  (fullOrder_perm position chain keys).length_eq

end SorterChain

end EntityQuery
