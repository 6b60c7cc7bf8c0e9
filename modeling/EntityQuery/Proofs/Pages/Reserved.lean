import EntityQuery.Proofs.Pages.Walk

/-!
# Places reserved on a page

The gaps that match a page reserve places on it, and their sizes are any words. The places are added
up as words, so gaps may reserve so many that the sum starts over. `capacity_exact_iff` says when
that shows: the sum is that of the table exactly while it is a word, and when it is not, the room is
still that of the table if what is left of the sum fills the page. A page full of gaps keeps one
place as long as the sum is a word, and one gap after the largest one takes that away
(`capacity_of_sum_over`).

Both hold wherever a walk stands, for the gaps that it has dropped reserve nothing on the pages that
it has still to come to.
-/

namespace EntityQuery

/-- The places that each of the gaps that match a page reserves on it. -/
def sharesOf (gaps : List Gap) (page : ℕ) : List ℕ :=
  (gaps.filter (·.condition.matchesPage page)).map Gap.size

/-- The number of places that the gaps that match a page reserve on it together. -/
def reserved (gaps : List Gap) (page : ℕ) : ℕ := (sharesOf gaps page).sum

/-- What words add up to starts over after the largest one. -/
theorem Word.sum_eq_mod (words : List ℕ) : Word.sum words = words.sum % Word.modulus := by
  rw [Word.sum, ← List.sum_eq_foldl, Word.wrap]

/-- The gaps that a walk has dropped take no room from a page that it comes to. -/
theorem AgreeFrom.capacity_eq {page : ℕ} {active gaps : List Gap} (h : AgreeFrom page active gaps)
    (pageSize : ℕ) (hmax : (page : ℤ) ≤ Signed.max) :
    capacity active pageSize page = capacity gaps pageSize page := by
  rw [capacity, capacity, h page (le_refl page) hmax]

/-- When the places that gaps reserve are counted right. The sum of their sizes is that of the table
exactly while it is a word. The room on the page is that of the table exactly while the sum is a
word, or what is left of it leaves no more than one place; gaps that fill the page leave exactly one
while the sum is a word. And the room is the same for the gaps that are left when a walk comes to
the page. -/
theorem capacity_exact_iff (gaps : List Gap) {pageSize : ℕ} (hsize : pageSize ≤ Word.max)
    (page : ℕ) :
    (Word.sum (sharesOf gaps page) = reserved gaps page ↔ reserved gaps page < Word.modulus) ∧
      (capacity gaps pageSize page = pageRoom gaps pageSize page ↔
        reserved gaps page < Word.modulus ∨ pageSize ≤ Word.sum (sharesOf gaps page) + 1) ∧
      (reserved gaps page < Word.modulus → pageSize ≤ reserved gaps page →
        capacity gaps pageSize page = 1) ∧
      ∀ active, AgreeFrom page active gaps → (page : ℤ) ≤ Signed.max →
        capacity active pageSize page = capacity gaps pageSize page := by
  have hsum : Word.sum (sharesOf gaps page) = reserved gaps page % Word.modulus :=
    Word.sum_eq_mod _
  have hcapacity : capacity gaps pageSize page
      = max 1 (pageSize - Word.sum (sharesOf gaps page)) := rfl
  have hroom : pageRoom gaps pageSize page = max 1 (pageSize - reserved gaps page) := rfl
  refine ⟨?_, ?_, fun hword hfull => ?_, fun active h hmax => h.capacity_eq _ hmax⟩
  · rw [hsum]
    exact Nat.mod_eq_iff_lt (by decide)
  · rw [hcapacity, hroom]
    rcases lt_or_ge (reserved gaps page) Word.modulus with hword | hover
    · rw [hsum, Nat.mod_eq_of_lt hword]
      simp [hword]
    · -- Such gaps fill a page of any size, so the table leaves one place.
      have hmodulus : Word.modulus = Word.max + 1 := rfl
      omega
  · rw [hcapacity, hsum, Nat.mod_eq_of_lt hword]
    omega

/-- The largest gap alone leaves one place on the page that it matches. -/
theorem capacity_exact_iff_largest :
    5 ≤ Word.max ∧ reserved [⟨Word.max, .literal true⟩] 3 < Word.modulus ∧
      capacity [⟨Word.max, .literal true⟩] 5 3 = 1 := by
  have hsize : 5 ≤ Word.max := by decide
  have hword : reserved [⟨Word.max, .literal true⟩] 3 < Word.modulus := by decide
  exact ⟨hsize, hword,
    (capacity_exact_iff [⟨Word.max, .literal true⟩] hsize 3).2.2.1 hword (by decide)⟩

/-- One more gap of a single place, and the page has all its places back. -/
theorem capacity_of_sum_over :
    capacity [⟨Word.max, .literal true⟩, ⟨1, .literal true⟩] 5 1 = 5 ∧
      pageRoom [⟨Word.max, .literal true⟩, ⟨1, .literal true⟩] 5 1 = 1 := by
  decide

end EntityQuery
