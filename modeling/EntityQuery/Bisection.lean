/-!
# Bisection

In an array that is sorted by key, the elements up to a bound stand in front of the others. Where
they end is found by cutting the array in the middle again and again, and the elements with one key
are those between two such places.
-/

namespace EntityQuery

variable {α : Type}

/-- The place between `low` and `high` up to which the elements have a property. -/
def bisect (p : α → Bool) (elements : Array α) (low high : Nat) : Nat :=
  if low < high then
    let middle := (low + high) / 2
    if elements[middle]?.any p then bisect p elements (middle + 1) high
    else bisect p elements low middle
  else low
termination_by high - low

/-- The place up to which the elements of an array have a property. -/
def partitionPoint (p : α → Bool) (elements : Array α) : Nat := bisect p elements 0 elements.size

/-- Where the elements with the property are those before some place, that place is found. -/
theorem bisect_eq {p : α → Bool} {elements : Array α} {n low high : Nat}
    (hfront : ∀ i < n, elements[i]?.any p = true) (hback : ∀ i ≥ n, elements[i]?.any p = false)
    (hlow : low ≤ n) (hhigh : n ≤ high) : bisect p elements low high = n := by
  fun_induction bisect p elements low high with
  | case1 low high _ middle hmiddle ih =>
    have hlt : middle < n := by
      by_cases hge : n ≤ middle
      · rw [hback middle hge] at hmiddle
        exact absurd hmiddle (by simp)
      · omega
    exact ih hlt hhigh
  | case2 low high _ middle hmiddle ih =>
    have hge : n ≤ middle := by
      by_cases hlt : middle < n
      · exact absurd (hfront middle hlt) hmiddle
      · omega
    exact ih hlow hge
  | case3 => omega

/-- The place that is found is the end of the elements with the property. -/
theorem partitionPoint_append {p : α → Bool} {front back : List α}
    (hfront : ∀ x ∈ front, p x = true) (hback : ∀ x ∈ back, p x = false) :
    partitionPoint p (front ++ back).toArray = front.length := by
  refine bisect_eq (fun i hi => ?_) (fun i hi => ?_) (Nat.zero_le _) (by simp)
  · have hx : (front ++ back).toArray[i]? = some front[i] := by
      rw [List.getElem?_toArray, List.getElem?_append_left hi, List.getElem?_eq_getElem hi]
    rw [hx]
    exact hfront _ (List.getElem_mem hi)
  · have hx : (front ++ back).toArray[i]? = back[i - front.length]? := by
      simp [List.getElem?_append_right hi]
    rw [hx]
    rcases hy : back[i - front.length]? with - | y
    · rfl
    · exact hback y (List.mem_of_getElem? hy)

/-- The elements with a key, in an array that is sorted by key. -/
def equalRange (key : α → Nat) (elements : Array α) (k : Nat) : List α :=
  let first := partitionPoint (fun x => decide (key x < k)) elements
  let stop := partitionPoint (fun x => decide (key x ≤ k)) elements
  (elements.extract first stop).toList

/-- A list that is sorted by key has the elements below a key in front, and then those with it. -/
theorem eq_append_of_sorted {key : α → Nat} {l : List α}
    (h : l.Pairwise fun a b => key a ≤ key b) (k : Nat) :
    l = l.filter (fun x => decide (key x < k)) ++ l.filter (fun x => key x == k)
      ++ l.filter (fun x => decide (k < key x)) := by
  induction l with
  | nil => rfl
  | cons a rest ih =>
    obtain ⟨ha, hrest⟩ := List.pairwise_cons.1 h
    have ih := ih hrest
    -- All that follows has no smaller key, so the parts before that of `a` are empty.
    have hbelow (hk : k ≤ key a) : rest.filter (fun x => decide (key x < k)) = [] :=
      List.filter_eq_nil_iff.2 fun x hx => by
        have := ha x hx
        simp
        omega
    have hequal (hk : k < key a) : rest.filter (fun x => key x == k) = [] :=
      List.filter_eq_nil_iff.2 fun x hx => by
        have := ha x hx
        simp
        omega
    rcases Nat.lt_trichotomy (key a) k with hlt | heq | hgt
    · simpa [hlt, Nat.ne_of_lt hlt, Nat.not_lt_of_lt hlt] using ih
    · rw [hbelow (Nat.le_of_eq heq.symm)] at ih
      simpa [heq, hbelow] using ih
    · rw [hbelow (Nat.le_of_lt hgt), hequal hgt] at ih
      simpa [hgt, Nat.ne_of_gt hgt, Nat.not_lt_of_lt hgt, hbelow, hequal, Nat.le_of_lt] using ih

variable {key : α → Nat} {l : List α}

/-- In a sorted array, the elements below a key end where they are found to. -/
theorem partitionPoint_lt (h : l.Pairwise fun a b => key a ≤ key b) (k : Nat) :
    partitionPoint (fun x => decide (key x < k)) l.toArray
      = (l.filter fun x => decide (key x < k)).length := by
  have hsplit := eq_append_of_sorted h k
  generalize hback : l.filter (fun x => key x == k) ++ l.filter (fun x => decide (k < key x)) = back
  rw [List.append_assoc, hback] at hsplit
  refine (congrArg (fun l => partitionPoint _ (List.toArray l)) hsplit).trans ?_
  refine partitionPoint_append (fun x hx => (List.mem_filter.1 hx).2) fun x hx => ?_
  rw [← hback, List.mem_append, List.mem_filter, List.mem_filter, beq_iff_eq,
    decide_eq_true_iff] at hx
  rw [decide_eq_false_iff_not]
  omega

/-- In a sorted array, the elements up to a key end where they are found to. -/
theorem partitionPoint_le (h : l.Pairwise fun a b => key a ≤ key b) (k : Nat) :
    partitionPoint (fun x => decide (key x ≤ k)) l.toArray
      = (l.filter (fun x => decide (key x < k)) ++ l.filter fun x => key x == k).length := by
  refine (congrArg (fun l => partitionPoint _ (List.toArray l)) (eq_append_of_sorted h k)).trans ?_
  refine partitionPoint_append (fun x hx => ?_) fun x hx => ?_
  · rw [List.mem_append, List.mem_filter, List.mem_filter, beq_iff_eq, decide_eq_true_iff] at hx
    rw [decide_eq_true_iff]
    omega
  · have hlt := of_decide_eq_true (List.mem_filter.1 hx).2
    rw [decide_eq_false_iff_not]
    omega

/-- In a sorted array, the elements between the two places are those with the key. -/
theorem equalRange_eq_filter (h : l.Pairwise fun a b => key a ≤ key b) (k : Nat) :
    equalRange key l.toArray k = l.filter fun x => key x == k := by
  have hsplit := eq_append_of_sorted h k
  simp only [equalRange]
  rw [partitionPoint_lt h, partitionPoint_le h]
  generalize l.filter (fun x => decide (key x < k)) = front at *
  generalize l.filter (fun x => key x == k) = equal at *
  rw [hsplit]
  simp

/-- The last element with a key, in an array that is sorted by key. It is looked for at the place in
front of the elements beyond the key. -/
def lastWithKey (key : α → Nat) (elements : Array α) (k : Nat) : Option α :=
  let stop := partitionPoint (fun x => decide (key x ≤ k)) elements
  elements[stop - 1]?.filter fun x => key x == k

/-- In a sorted array, the element that is found is the last one with the key, and it is found where
there is one. -/
theorem lastWithKey_eq_getLast? (h : l.Pairwise fun a b => key a ≤ key b) (k : Nat) :
    lastWithKey key l.toArray k = (l.filter fun x => key x == k).getLast? := by
  have hsplit := eq_append_of_sorted h k
  simp only [lastWithKey]
  rw [partitionPoint_le h]
  generalize hfront : l.filter (fun x => decide (key x < k)) = front at *
  generalize hequal : l.filter (fun x => key x == k) = equal at *
  generalize hback : l.filter (fun x => decide (k < key x)) = back at *
  have hlt : ∀ x ∈ front, key x < k := fun x hx => by
    rw [← hfront] at hx
    exact of_decide_eq_true (List.mem_filter.1 hx).2
  have heq : ∀ x ∈ equal, key x = k := fun x hx => by
    rw [← hequal] at hx
    exact eq_of_beq (List.mem_filter.1 hx).2
  have hgt : ∀ x ∈ back, k < key x := fun x hx => by
    rw [← hback] at hx
    exact of_decide_eq_true (List.mem_filter.1 hx).2
  rcases List.eq_nil_or_concat equal with rfl | ⟨first, last, rfl⟩
  · -- Without such an element, another one or none stands at the place.
    rw [List.getLast?_nil, Option.filter_eq_none_iff]
    intro x hx hk
    have hmem : x ∈ front ++ [] ++ back := by
      rw [← hsplit, ← List.mem_toArray]
      exact Array.mem_of_getElem? hx
    rw [List.append_nil, List.mem_append] at hmem
    have hkey := eq_of_beq hk
    rcases hmem with hmem | hmem
    · have := hlt x hmem
      omega
    · have := hgt x hmem
      omega
  · rw [List.concat_eq_append] at *
    have hplace : l.toArray[(front ++ (first ++ [last])).length - 1]? = some last := by
      have hlast : l = (front ++ first) ++ last :: back := by
        rw [hsplit]
        simp
      have hlength : (front ++ (first ++ [last])).length - 1 = (front ++ first).length := by
        simp [← Nat.add_assoc]
      rw [hlength, hlast, List.getElem?_toArray, List.getElem?_append_right (Nat.le_refl _),
        Nat.sub_self, List.getElem?_cons_zero]
    rw [hplace, List.getLast?_concat]
    simp [heq last (by simp)]

end EntityQuery
