import EntityQuery.Sort.Merge
import Mathlib.Tactic

/-!
# Interleaving

Interleaving takes, again and again, the least of the records that come next, and the one of the
earlier provider among equals. Providers that are interleaved with others may be interleaved among
themselves first (`merge_assoc`), so the order in which they are listed matters only where it
matters for two of them. There it matters only where both have the same record next and one of them
goes on with a record that precedes it: otherwise the record is taken from the one and then from the
other (`merge_comm`).

In ascending order providers never go on with a record that precedes the last one. In descending
order they do, since the records of one value come with descending keys. So there a record that two
providers share has to be the last one of its value (`MergeMode.interleave_eq_of_perm`).
-/

namespace EntityQuery

/-! ## Merging two lists -/

section Merge

variable {α : Type} {le : α → α → Bool}

/-- An element that none of the other list precedes is taken first. -/
theorem cons_merge_of_forall_le {x : α} {l l' : List α} (h : ∀ y ∈ l', le x y) :
    (x :: l).merge l' le = x :: l.merge l' le := by
  cases l' with
  | nil => rw [List.merge_right, List.merge_right]
  | cons y l' => rw [List.cons_merge_cons, if_pos (h y List.mem_cons_self)]

/-- Merging three lists does not depend on which two are merged first. The lists need not be
sorted. -/
theorem merge_assoc (htrans : ∀ x y z, le x y → le y z → le x z)
    (htotal : ∀ x y, le x y || le y x) (l₁ l₂ l₃ : List α) :
    (l₁.merge l₂ le).merge l₃ le = l₁.merge (l₂.merge l₃ le) le := by
  -- Each step takes one element, and which list it is from is the same on both sides.
  induction l₁ generalizing l₂ l₃ with
  | nil => rw [List.nil_merge, List.nil_merge]
  | cons x l₁ ih₁ =>
    induction l₂ generalizing l₃ with
    | nil => rw [List.merge_right, List.nil_merge]
    | cons y l₂ ih₂ =>
      induction l₃ with
      | nil => rw [List.merge_right, List.merge_right]
      | cons z l₃ ih₃ =>
        rw [List.cons_merge_cons le y z]
        by_cases hxy : le x y = true
        · by_cases hyz : le y z = true
          · have hxz := htrans x y z hxy hyz
            rw [if_pos hyz, List.cons_merge_cons, if_pos hxy, List.cons_merge_cons, if_pos hxz,
              List.cons_merge_cons, if_pos hxy, ih₁, List.cons_merge_cons, if_pos hyz]
          · rw [if_neg hyz, List.cons_merge_cons, List.cons_merge_cons, if_pos hxy]
            by_cases hxz : le x z = true
            · rw [List.cons_merge_cons, if_pos hxz, if_pos hxz, ih₁, List.cons_merge_cons,
                if_neg hyz]
            · rw [List.cons_merge_cons, if_neg hxz, if_neg hxz, ← ih₃, List.cons_merge_cons,
                if_pos hxy]
        · by_cases hyz : le y z = true
          · rw [if_pos hyz, List.cons_merge_cons, if_neg hxy, List.cons_merge_cons, if_pos hyz,
              List.cons_merge_cons, if_neg hxy, ih₂]
          · have hxz : ¬le x z = true := by
              intro hxz
              have hzy := (Bool.or_eq_true_iff.1 (htotal y z)).resolve_left hyz
              exact hxy (htrans x z y hxz hzy)
            rw [if_neg hyz, List.cons_merge_cons, if_neg hxy, List.cons_merge_cons, if_neg hyz,
              List.cons_merge_cons, if_neg hxz, ← ih₃, List.cons_merge_cons, if_neg hxy]

/-- Two lists are merged alike whichever is named first, where neither goes on with an element that
precedes one that they share. -/
theorem merge_comm (htotal : ∀ x y, le x y || le y x) (hantisymm : ∀ x y, le x y → le y x → x = y)
    {l₁ l₂ : List α} (h₁ : l₁.Pairwise fun x y => x ∈ l₂ → le x y)
    (h₂ : l₂.Pairwise fun x y => x ∈ l₁ → le x y) : l₁.merge l₂ le = l₂.merge l₁ le := by
  induction l₁ generalizing l₂ with
  | nil => rw [List.nil_merge, List.merge_right]
  | cons x l₁ ih₁ =>
    induction l₂ with
    | nil => rw [List.nil_merge, List.merge_right]
    | cons y l₂ ih₂ =>
      obtain ⟨hx, hrest₁⟩ := List.pairwise_cons.1 h₁
      obtain ⟨hy, hrest₂⟩ := List.pairwise_cons.1 h₂
      -- Either list may lose its first element.
      have hdrop₁ : l₁.merge (y :: l₂) le = (y :: l₂).merge l₁ le :=
        ih₁ hrest₁ (h₂.imp fun h hmem => h (List.mem_cons_of_mem _ hmem))
      have hdrop₂ : (x :: l₁).merge l₂ le = l₂.merge (x :: l₁) le :=
        ih₂ (h₁.imp fun h hmem => h (List.mem_cons_of_mem _ hmem)) hrest₂
      by_cases hxy : le x y = true
      · by_cases hyx : le y x = true
        · -- The two share their first element, which is taken twice.
          obtain rfl := hantisymm x y hxy hyx
          have hdrop : l₁.merge l₂ le = l₂.merge l₁ le :=
            ih₁ (hrest₁.imp fun h hmem => h (List.mem_cons_of_mem _ hmem))
              (hrest₂.imp fun h hmem => h (List.mem_cons_of_mem _ hmem))
          have hleast₁ : ∀ z ∈ l₁, le x z := fun z hz => hx z hz List.mem_cons_self
          have hleast₂ : ∀ z ∈ l₂, le x z := fun z hz => hy z hz List.mem_cons_self
          rw [List.cons_merge_cons, if_pos hxy, List.cons_merge_cons, if_pos hxy, hdrop₁, ← hdrop₂,
            cons_merge_of_forall_le hleast₁, cons_merge_of_forall_le hleast₂, hdrop]
        · rw [List.cons_merge_cons, if_pos hxy, List.cons_merge_cons, if_neg hyx, hdrop₁]
      · have hyx := (Bool.or_eq_true_iff.1 (htotal x y)).resolve_left hxy
        rw [List.cons_merge_cons, if_neg hxy, List.cons_merge_cons, if_pos hyx, hdrop₂]

end Merge

/-! ## The order of records -/

namespace RecordProvider

/-- The order of records is transitive. -/
theorem inOrder_trans (a b c : SortedRecord) (hab : inOrder a b) (hbc : inOrder b c) :
    inOrder a c := by
  simp only [inOrder, decide_eq_true_eq] at *
  omega

/-- Two records are in order one way or the other. -/
theorem inOrder_total (a b : SortedRecord) : inOrder a b || inOrder b a := by
  simp only [inOrder, Bool.or_eq_true, decide_eq_true_eq]
  omega

/-- Two records that are in order both ways are the same. -/
theorem inOrder_antisymm {a b : SortedRecord} (hab : inOrder a b) (hba : inOrder b a) : a = b := by
  simp only [inOrder, decide_eq_true_eq] at hab hba
  rw [SortedRecord.mk.injEq]
  omega

/-- The records that are merged are in order. -/
theorem sorted_mergeSort (records : List SortedRecord) :
    (records.mergeSort inOrder).Pairwise fun a b => inOrder a b :=
  List.pairwise_mergeSort inOrder_trans inOrder_total records

end RecordProvider

namespace Direction

open RecordProvider

/-- Values have the same weight only where they are the same. -/
theorem weight_inj (direction : Direction) {v w : ℤ} (h : direction.weight v = direction.weight w) :
    v = w := by
  rcases direction with - | -
  · exact h
  · exact Int.neg_inj.1 h

/-- In ascending order a record precedes what it is in order with. -/
theorem precedes_ascending (a b : SortedRecord) : ascending.precedes a b = inOrder a b := rfl

/-- In descending order greater values come first, and smaller keys among equal values. -/
theorem precedes_descending {a b : SortedRecord} :
    descending.precedes a b ↔ b.value < a.value ∨ a.value = b.value ∧ a.key ≤ b.key := by
  unfold precedes inOrder
  rw [decide_eq_true_eq]
  exact or_congr Int.neg_lt_neg_iff (and_congr_left' Int.neg_inj)

/-- What precedes a record precedes what that record precedes. -/
theorem precedes_trans (direction : Direction) (a b c : SortedRecord)
    (hab : direction.precedes a b) (hbc : direction.precedes b c) : direction.precedes a c :=
  inOrder_trans _ _ _ hab hbc

/-- Of two records one precedes the other. -/
theorem precedes_total (direction : Direction) (a b : SortedRecord) :
    direction.precedes a b || direction.precedes b a :=
  inOrder_total _ _

/-- Two records that precede each other are the same. -/
theorem precedes_antisymm (direction : Direction) (a b : SortedRecord)
    (hab : direction.precedes a b) (hba : direction.precedes b a) : a = b := by
  obtain ⟨hweight, hkey⟩ := (SortedRecord.mk.injEq ..).mp (inOrder_antisymm hab hba)
  rw [SortedRecord.mk.injEq]
  exact ⟨direction.weight_inj hweight, hkey⟩

end Direction

/-! ## Interleaving providers -/

namespace MergeMode

open RecordProvider

/-- Interleaving sorted records in ascending order gives sorted records. -/
theorem interleave_ascending_sorted {providers : List RecordProvider}
    (h : ∀ p ∈ providers, p.records.Pairwise fun a b => inOrder a b) :
    (interleave.merge .ascending providers).Pairwise fun a b => inOrder a b := by
  unfold merge
  induction providers with
  | nil => exact List.Pairwise.nil
  | cons p rest ih =>
    have hrest := ih fun p hp => h p (List.mem_cons_of_mem _ hp)
    exact List.pairwise_merge inOrder_trans inOrder_total _ _ (h p List.mem_cons_self) hrest

/-- Interleaving does not depend on the order in which providers are listed, where no provider goes
on with a record that precedes one it shares with another. -/
theorem interleave_eq_of_perm {direction : Direction} {ps qs : List RecordProvider}
    (hperm : (ps.map (·.records)).Perm (qs.map (·.records)))
    (hshared : ∀ p ∈ ps, ∀ q ∈ ps, p.records ≠ q.records →
      (direction.arrange p.records).Pairwise fun a b => a ∈ q.records → direction.precedes a b) :
    interleave.merge direction ps = interleave.merge direction qs := by
  have hfold (l : List RecordProvider) : interleave.merge direction l
      = ((l.map (·.records)).map direction.arrange).foldr
        (fun run merged => run.merge merged direction.precedes) [] := by
    rw [List.map_map]
    rfl
  -- Any two runs may be interleaved with the others in either order.
  have hswap (a b : List SortedRecord) (ha : a ∈ ps.map (·.records))
      (hb : b ∈ ps.map (·.records)) : (direction.arrange a).merge (direction.arrange b)
        direction.precedes = (direction.arrange b).merge (direction.arrange a)
          direction.precedes := by
    by_cases hsame : a = b
    · rw [hsame]
    · obtain ⟨p, hp, rfl⟩ := List.mem_map.1 ha
      obtain ⟨q, hq, rfl⟩ := List.mem_map.1 hb
      refine merge_comm direction.precedes_total direction.precedes_antisymm ?_ ?_
      · exact (hshared p hp q hq hsame).imp fun h hmem => h (Direction.mem_arrange.1 hmem)
      · exact (hshared q hq p hp (Ne.symm hsame)).imp fun h hmem => h (Direction.mem_arrange.1 hmem)
  rw [hfold, hfold]
  refine (hperm.map direction.arrange).foldr_eq' ?_ []
  intro x hx y hy merged
  obtain ⟨a, ha, rfl⟩ := List.mem_map.1 hx
  obtain ⟨b, hb, rfl⟩ := List.mem_map.1 hy
  rw [← merge_assoc direction.precedes_trans direction.precedes_total, hswap b a hb ha,
    merge_assoc direction.precedes_trans direction.precedes_total]

/-- In ascending order a provider goes on with no record that precedes another one of its own. -/
theorem pairwise_ascending {records others : List SortedRecord}
    (h : records.Pairwise fun a b => inOrder a b) :
    (Direction.ascending.arrange records).Pairwise fun a b =>
      a ∈ others → Direction.ascending.precedes a b := by
  rw [Direction.arrange]
  refine h.imp fun {a b} hab _ => ?_
  rw [Direction.precedes_ascending, hab]

/-- In descending order a provider goes on with no record that precedes a shared one, where shared
records have the least key of their value. -/
theorem pairwise_descending {records others : List SortedRecord}
    (h : records.Pairwise fun a b => inOrder a b)
    (hleast : ∀ r ∈ records, r ∈ others → ∀ x ∈ records, x.value = r.value → r.key ≤ x.key) :
    (Direction.descending.arrange records).Pairwise fun a b =>
      a ∈ others → Direction.descending.precedes a b := by
  have hreversed : records.reverse.Pairwise fun a b => inOrder b a := List.pairwise_reverse.2 h
  refine hreversed.imp_of_mem fun {a b} ha hb hba hother => ?_
  have hkey := hleast a (List.mem_reverse.1 ha) hother b (List.mem_reverse.1 hb)
  rw [inOrder, decide_eq_true_eq] at hba
  rw [Direction.precedes_descending]
  omega

end MergeMode

end EntityQuery
