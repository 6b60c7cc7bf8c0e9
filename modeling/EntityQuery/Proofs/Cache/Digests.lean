import EntityQuery.Formula.Build
import Mathlib.Tactic

/-!
# What digests tell

Digests lose nothing of what they are put together from, except for the order of collections. Here
this is spelled out for the digests of structures, of predicates on amounts and of collections of
snapshots.
-/

namespace EntityQuery

namespace Digest

/-- A structure is determined by its kind and its parts. -/
theorem tagged_inj {t u : ℕ} {p q : List Digest} : tagged t p = tagged u q ↔ t = u ∧ p = q := by
  rw [tagged, tagged, ofList_inj, List.cons.injEq, word.injEq]

/-- A sequence of parts is determined by its digest. -/
theorem orderedPart_inj {p q : List Digest} : orderedPart p = orderedPart q ↔ p = q := by
  rw [orderedPart, orderedPart, List.cons.injEq, word.injEq]
  constructor
  · exact And.right
  · intro h
    exact ⟨congrArg List.length h, h⟩

/-- A collection of parts is determined by its digest, up to the order. -/
theorem unorderedPart_eq_iff {p q : List Digest} :
    unorderedPart p = unorderedPart q ↔ p.Perm q := by
  rw [unorderedPart, unorderedPart, orderedPart_inj, sort_eq_iff]

/-- Sorting without repetitions keeps all members. -/
theorem mem_sortDistinct {d : Digest} {parts : List Digest} :
    d ∈ sortDistinct parts ↔ d ∈ parts := by
  -- A part is dropped only where it comes next again.
  have hfold (l : List Digest) : d ∈ l.foldr (fun e rest =>
      if rest.head? = some e then rest else e :: rest) [] ↔ d ∈ l := by
    induction l with
    | nil => exact Iff.rfl
    | cons e l ih =>
      rw [List.foldr_cons, List.mem_cons, ← ih]
      split_ifs with hhead
      · have he := List.mem_of_mem_head? hhead
        constructor
        · exact Or.inr
        · rintro (rfl | hd)
          · exact he
          · exact hd
      · rw [List.mem_cons]
  rw [sortDistinct, hfold]
  exact (sort_perm parts).mem_iff

/-- Collections sort alike without repetitions, in whatever order they are given. -/
theorem sortDistinct_eq_of_perm {parts parts' : List Digest} (h : parts.Perm parts') :
    sortDistinct parts = sortDistinct parts' := by
  rw [sortDistinct, sortDistinct, sort_eq_of_perm h]

/-- Signed words have different parts. -/
theorem signedPart_inj {v w : ℤ} (hv : Signed.InRange v) (hw : Signed.InRange w) :
    signedPart v = signedPart w ↔ v = w := by
  obtain ⟨hv₁, hv₂⟩ := hv
  obtain ⟨hw₁, hw₂⟩ := hw
  unfold Signed.min at hv₁ hw₁
  unfold Signed.max at hv₂ hw₂
  constructor
  · intro h
    simp only [signedPart, Word.ofSigned, Word.modulus, List.cons.injEq, word.injEq] at h
    omega
  · intro h
    rw [h]

/-- Optional signed words have different parts, also where more follows. -/
theorem optionalPart_append_inj {v w : Option ℤ} (hv : ∀ x ∈ v, Signed.InRange x)
    (hw : ∀ x ∈ w, Signed.InRange x) {p q : List Digest} :
    optionalPart v ++ p = optionalPart w ++ q ↔ v = w ∧ p = q := by
  -- The first word tells whether a value follows.
  rcases v with - | x
  · rcases w with - | y
    · simp [optionalPart]
    · simp [optionalPart]
  · rcases w with - | y
    · simp [optionalPart]
    · have hsigned := signedPart_inj (hv x rfl) (hw y rfl)
      simp only [signedPart, List.cons.injEq, and_true] at hsigned
      simp [optionalPart, signedPart, hsigned]

end Digest

namespace AmountPredicate

/-- Whether the bounds of a predicate are signed words, as all amounts are. -/
def Bounded : AmountPredicate → Prop
  | all => True
  | range _ lower upper _ =>
    (∀ v ∈ lower, Signed.InRange v) ∧ ∀ v ∈ upper, Signed.InRange v

/-- A mode is determined by its number. -/
theorem tag_inj {a b : ValueMode} (h : a.tag = b.tag) : a = b := by
  rcases a <;> rcases b <;> first | rfl | exact absurd h (by decide)

/-- A predicate is determined by its digest. -/
theorem digest_inj {a b : AmountPredicate} (ha : a.Bounded) (hb : b.Bounded)
    (h : a.digest = b.digest) : a = b := by
  match a, b with
  | all, all => rfl
  | all, range .. =>
    rw [digest, digest, Digest.tagged_inj] at h
    exact absurd h.2 (by simp)
  | range .., all =>
    rw [digest, digest, Digest.tagged_inj] at h
    exact absurd h.2 (by simp)
  | range mode lower upper places, range mode' lower' upper' places' =>
    obtain ⟨hlower, hupper⟩ := ha
    obtain ⟨hlower', hupper'⟩ := hb
    rw [digest, digest, Digest.tagged_inj] at h
    obtain ⟨hmode, hrest⟩ := List.cons.inj h.2
    have hbounds : Digest.optionalPart lower ++ Digest.optionalPart upper ++ [.word places]
        = Digest.optionalPart lower' ++ Digest.optionalPart upper' ++ [.word places'] := hrest
    rw [List.append_assoc, List.append_assoc, Digest.optionalPart_append_inj hlower hlower',
      Digest.optionalPart_append_inj hupper hupper'] at hbounds
    obtain ⟨rfl, rfl, hplaces⟩ := hbounds
    obtain rfl := tag_inj (Digest.word.inj hmode)
    obtain rfl := Digest.word.inj (List.cons.inj hplaces).1
    rfl

end AmountPredicate

end EntityQuery
