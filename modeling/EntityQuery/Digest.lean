import EntityQuery.Word

/-!
# Digests

A digest identifies what a query structure is made of, without its content. It is built like a hash
of words and texts, except that nothing is lost: two digests are equal exactly when they were built
from equal parts. Digests are ordered, so that parts whose order does not matter can be sorted
before they are put together.

A structure that uses one part many times has a digest far larger, written out, than it takes in
memory. So a digest carries a summary, which tells most digests apart, and equality never walks a
part twice.
-/

namespace EntityQuery

/-- What a structure is made of: a word, a text, or a sequence of digests. -/
inductive Digest where
  | word (value : Nat)
  | text (value : String)
  /-- The sequence of nothing. -/
  | empty
  /-- The sequence that starts with `first` and goes on with `rest`. -/
  | more (first rest : Digest)
with
  /-- A short summary, which is kept with the digest. Digests with different summaries differ. -/
  @[computed_field] summary : Digest → UInt64
    | .word value => value.toUInt64 * 2 + 1
    | .text value => value.utf8ByteSize.toUInt64 * 2
    | .empty => 0x9e3779b97f4a7c15
    | .more first rest =>
      let mixed := first.summary * 0xbf58476d1ce4e5b9 + (rest.summary ^^^ 0x94d049bb133111eb)
      (mixed ^^^ (mixed >>> 29)) * 0x9e3779b97f4a7c15
  deriving Repr, Inhabited

namespace Digest

/-- Equality of two parts, which is plain when they are the same object in memory. -/
@[noinline] def decEqShared (a b : Digest) (k : Unit → Decidable (a = b)) : Decidable (a = b) :=
  withPtrEqDecEq a b k

/-- Equality of digests, part by part. Parts that are the same object in memory are not walked. -/
def decEqWalk : (a b : Digest) → Decidable (a = b)
  | word m, word n => decidable_of_iff (m = n) (by simp)
  | text s, text t => decidable_of_iff (s = t) (by simp)
  | empty, empty => isTrue rfl
  | more a s, more b t =>
    match decEqShared a b fun _ => decEqWalk a b with
    | isFalse h => isFalse (by simp [h])
    | isTrue h =>
      have same : (s = t) = (more a s = more b t) := by simp [h]
      same ▸ decEqWalk s t
  | word _, text _ | word _, empty | word _, more _ _ | text _, word _ | text _, empty
  | text _, more _ _ | empty, word _ | empty, text _ | empty, more _ _ | more _ _, word _
  | more _ _, text _ | more _ _, empty => isFalse nofun

/-- Equality of digests. Most digests that differ are told apart by their summaries. Otherwise parts
that are equal become the same object first, so that none of them is walked twice however often it
occurs. -/
def decEq (a b : Digest) : Decidable (a = b) :=
  if h : a.summary = b.summary then
    decEqShared a b fun _ =>
      let shared := ShareCommon.shareCommon' (a, b)
      (decEqShared shared.1 shared.2 fun _ => decEqWalk shared.1 shared.2 : Decidable (a = b))
  else isFalse fun same => h (same ▸ rfl)

instance : DecidableEq Digest := decEq

/-- The place of a digest's kind among the kinds. -/
def rank : Digest → Nat
  | word _ => 0
  | text _ => 1
  | empty => 2
  | more _ _ => 3

/-- The order of digests: words by value, texts alphabetically, sequences by their first
difference, and different kinds by rank. -/
def compare : Digest → Digest → Ordering
  | word m, word n => Ord.compare m n
  | text s, text t => Ord.compare s t
  | more a s, more b t => if a = b then compare s t else compare a b
  | a, b => Ord.compare a.rank b.rank

instance : Ord Digest := ⟨compare⟩

/-- Whether a digest comes no later than another. -/
def le (a b : Digest) : Bool := compare a b != .gt

/-- A digest compares as equal to itself. -/
theorem compare_self (a : Digest) : compare a a = .eq := by
  induction a with
  | word => simp [compare]
  | text => simp [compare]
  | empty => simp [compare]
  | more a s _ ih => simp [compare, ih]

/-- Only equal digests compare as equal. -/
theorem compare_eq_eq {a b : Digest} : compare a b = .eq ↔ a = b := by
  refine ⟨fun h => ?_, fun h => h ▸ compare_self a⟩
  induction a generalizing b with
  | word m => cases b <;> simp_all [compare, rank]
  | text s => cases b <;> simp_all [compare, rank]
  | empty => cases b <;> simp_all [compare, rank]
  | more a s iha ihs =>
    cases b with
    | more b t =>
      simp only [compare] at h
      split at h
      · rename_i hab
        rw [hab, ihs h]
      · rename_i hab
        exact absurd (iha h) hab
    | _ => simp [compare, rank] at h

/-- Comparing in the other order gives the opposite answer. -/
theorem compare_swap (a b : Digest) : compare b a = (compare a b).swap := by
  induction a generalizing b with
  | word m => cases b <;> simp only [compare] <;> exact Std.OrientedCmp.eq_swap
  | text s => cases b <;> simp only [compare] <;> exact Std.OrientedCmp.eq_swap
  | empty => cases b <;> simp only [compare] <;> exact Std.OrientedCmp.eq_swap
  | more a s iha ihs =>
    cases b with
    | more b t =>
      by_cases hab : a = b
      · simp [compare, hab, ihs]
      · simp [compare, hab, Ne.symm hab, iha]
    | _ => simp only [compare]; exact Std.OrientedCmp.eq_swap

/-- The order of digests is transitive. -/
theorem compare_trans {a b c : Digest} (h1 : (compare a b).isLE) (h2 : (compare b c).isLE) :
    (compare a c).isLE := by
  induction a generalizing b c with
  | more a s iha ihs =>
    cases b with
    | more b t =>
      cases c with
      | more c u =>
        by_cases hab : a = b <;> by_cases hbc : b = c
        · subst hab hbc
          simp only [compare, if_true] at h1 h2 ⊢
          exact ihs h1 h2
        · subst hab
          simpa only [compare, hbc, if_false] using h2
        · subst hbc
          simpa only [compare, hab, if_false] using h1
        · simp only [compare, hab, hbc, if_false] at h1 h2
          by_cases hac : a = c
          · subst hac
            have := compare_swap a b
            have hne : compare a b ≠ .eq := fun h => hab (compare_eq_eq.1 h)
            cases hc : compare a b <;> simp_all
          · simp only [compare, hac, if_false]
            exact iha h1 h2
      | _ => exact absurd h2 (by simp only [compare, rank]; decide)
    | _ => exact absurd h1 (by simp only [compare, rank]; decide)
  | _ =>
    cases b <;> cases c <;>
      simp_all only [compare, rank] <;> first
      | exact Std.TransCmp.isLE_trans h1 h2
      | rfl
      | exact absurd h1 (by decide)
      | exact absurd h2 (by decide)

/-- The digest of a sequence of parts. -/
def ofList (parts : List Digest) : Digest := parts.foldr more empty

/-- A sequence is determined by its digest. -/
theorem ofList_inj {p q : List Digest} : ofList p = ofList q ↔ p = q := by
  refine ⟨fun h => ?_, fun h => h ▸ rfl⟩
  induction p generalizing q with
  | nil => cases q <;> simp_all [ofList]
  | cons a p ih =>
    cases q with
    | nil => simp [ofList] at h
    | cons b q =>
      simp only [ofList, List.foldr_cons, more.injEq] at h
      rw [h.1, ih h.2]

/-- The parts in ascending order. -/
def sort (parts : List Digest) : List Digest := parts.mergeSort le

/-- The order of digests is transitive where it is tested. -/
theorem le_trans (a b c : Digest) (h1 : le a b) (h2 : le b c) : le a c := by
  have isLE (a b : Digest) : le a b = (compare a b).isLE := by
    unfold le
    cases compare a b <;> rfl
  rw [isLE] at *
  exact compare_trans h1 h2

/-- Of two digests one comes no later than the other. -/
theorem le_total (a b : Digest) : (le a b || le b a) = true := by
  unfold le
  rw [compare_swap a b]
  cases compare a b <;> rfl

/-- Digests that come no later than each other are equal. -/
theorem le_antisymm {a b : Digest} (h1 : le a b) (h2 : le b a) : a = b := by
  unfold le at *
  rw [compare_swap a b] at h2
  rw [← compare_eq_eq]
  cases h : compare a b <;> simp_all

/-- Sorting keeps all parts. -/
theorem sort_perm (parts : List Digest) : (sort parts).Perm parts := List.mergeSort_perm _ _

/-- Sorting forgets the order. -/
theorem sort_eq_of_perm {p q : List Digest} (h : p.Perm q) : sort p = sort q :=
  ((sort_perm p).trans (h.trans (sort_perm q).symm)).eq_of_pairwise
    (fun _ _ _ _ => le_antisymm) (List.pairwise_mergeSort le_trans le_total p)
    (List.pairwise_mergeSort le_trans le_total q)

/-- Two collections sort alike exactly when one is a permutation of the other. -/
theorem sort_eq_iff {p q : List Digest} : sort p = sort q ↔ p.Perm q :=
  ⟨fun h => (sort_perm p).symm.trans (h ▸ sort_perm q), sort_eq_of_perm⟩

/-- The digest of a collection, whatever the order in which it is given. -/
def unordered (parts : List Digest) : Digest := ofList (sort parts)

/-- The digest of a collection forgets its order and nothing else. -/
theorem unordered_eq_iff {p q : List Digest} : unordered p = unordered q ↔ p.Perm q := by
  rw [unordered, unordered, ofList_inj, sort_eq_iff]

/-- A structure of kind `tag` with the given parts. -/
def tagged (tag : Nat) (parts : List Digest) : Digest := ofList (word tag :: parts)

/-- The part for a signed number. -/
def signedPart (value : Int) : List Digest := [word (Word.ofSigned value)]

/-- The part for an optional signed number, which tells absence from every value. -/
def optionalPart : Option Int → List Digest
  | some value => word 1 :: signedPart value
  | none => [word 0]

/-- The part for a sequence, with its length in front. -/
def orderedPart (parts : List Digest) : List Digest := word parts.length :: parts

/-- The part for a collection whose order does not matter. -/
def unorderedPart (parts : List Digest) : List Digest := orderedPart (sort parts)

/-- Sorted without repetitions. -/
def sortDistinct (parts : List Digest) : List Digest :=
  (sort parts).foldr (fun d rest => if rest.head? = some d then rest else d :: rest) []

/-- How a digest is shown in messages: a word in hexadecimal, and anything else by its kind. -/
def label : Digest → String
  | word value => "0x" ++ String.ofList (Nat.toDigits 16 value)
  | text value => value
  | empty => "()"
  | more _ _ => "(..)"

end Digest

end EntityQuery
