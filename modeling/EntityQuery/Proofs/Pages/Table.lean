import EntityQuery.Slicer.Basic
import Mathlib.Algebra.BigOperators.Intervals
import Mathlib.Algebra.Order.BigOperators.Group.Finset
import Mathlib.Tactic

/-!
# The table of pages

The window of a page can be defined without walking the pages before it. A page has the room that is
left by all gaps that match it (`pageRoom`), its offset is the room of the pages before it
(`pageOffset`), and the last page is the least one at whose end no record is left
(`lastPageNumber`). `tableWindow` puts these together. The pages in range are those up to the last
page (`inRange_iff`), and they cover all records (`isLeast_lastPageNumber`).
-/

namespace EntityQuery

/-! ## The table -/

/-- The room on a page: its size less the sizes of all gaps that match it, one place at least. -/
def pageRoom (gaps : List Gap) (pageSize page : ℕ) : ℕ :=
  max 1 (pageSize - ((gaps.filter (·.condition.matchesPage page)).map Gap.size).sum)

/-- The number of records on the pages before a page. -/
def pageOffset (gaps : List Gap) (pageSize page : ℕ) : ℕ :=
  ∑ q ∈ Finset.Ico 1 page, pageRoom gaps pageSize q

/-- A page has room for a record. -/
theorem pageRoom_pos (gaps : List Gap) (pageSize page : ℕ) : 0 < pageRoom gaps pageSize page := by
  unfold pageRoom
  omega

/-- No record lies before the first page. -/
theorem pageOffset_one (gaps : List Gap) (pageSize : ℕ) : pageOffset gaps pageSize 1 = 0 := by
  simp [pageOffset]

/-- Before the next page lie also the records of this page. -/
theorem pageOffset_succ (gaps : List Gap) (pageSize : ℕ) {page : ℕ} (h : 1 ≤ page) :
    pageOffset gaps pageSize (page + 1)
      = pageOffset gaps pageSize page + pageRoom gaps pageSize page :=
  Finset.sum_Ico_succ_top h _

/-- A later page has no smaller offset. -/
theorem pageOffset_mono (gaps : List Gap) (pageSize : ℕ) {p q : ℕ} (h : p ≤ q) :
    pageOffset gaps pageSize p ≤ pageOffset gaps pageSize q :=
  Finset.sum_le_sum_of_subset (Finset.Ico_subset_Ico_right h)

/-- Each page before a page holds at least one of the records before it. -/
theorem sub_one_le_pageOffset (gaps : List Gap) (pageSize page : ℕ) :
    page - 1 ≤ pageOffset gaps pageSize page := by
  have h := Finset.card_nsmul_le_sum (Finset.Ico 1 page) (pageRoom gaps pageSize) 1
    fun q _ => pageRoom_pos gaps pageSize q
  simpa [pageOffset] using h

/-- On some page the records come to an end. -/
theorem exists_le_pageOffset (gaps : List Gap) (pageSize total : ℕ) :
    ∃ page, 1 ≤ page ∧ total ≤ pageOffset gaps pageSize (page + 1) :=
  ⟨total + 1, by omega, le_trans (by omega) (sub_one_le_pageOffset gaps pageSize (total + 1 + 1))⟩

/-- The number of the last page: the least page at whose end no record is left. -/
def lastPageNumber (gaps : List Gap) (pageSize total : ℕ) : ℕ :=
  Nat.find (exists_le_pageOffset gaps pageSize total)

/-- The last page of the table is the least page at whose end no record is left. -/
theorem isLeast_lastPageNumber (gaps : List Gap) (pageSize total : ℕ) :
    IsLeast {page | 1 ≤ page ∧ total ≤ pageOffset gaps pageSize (page + 1)}
      (lastPageNumber gaps pageSize total) :=
  ⟨Nat.find_spec (exists_le_pageOffset gaps pageSize total),
    fun _ h => Nat.find_min' (exists_le_pageOffset gaps pageSize total) h⟩

/-- Whether a page is in range: it starts before the last record, or it is the first page. -/
def InRange (gaps : List Gap) (pageSize total page : ℕ) : Prop :=
  pageOffset gaps pageSize page < total ∨ page = 1

instance (gaps : List Gap) (pageSize total page : ℕ) :
    Decidable (InRange gaps pageSize total page) :=
  inferInstanceAs (Decidable (_ ∨ _))

/-- The window of a page by the table. A page out of range gives the first page instead. -/
def tableWindow (gaps : List Gap) (requested pageSize total : ℕ) : Window :=
  let last := lastPageNumber gaps pageSize total
  if InRange gaps pageSize total requested then
    ⟨pageOffset gaps pageSize requested, pageRoom gaps pageSize requested, requested, last, total⟩
  else ⟨0, pageRoom gaps pageSize 1, 1, last, total⟩

/-- The pages in range are those up to the last page. -/
theorem inRange_iff {gaps : List Gap} {pageSize total page : ℕ} (h : 1 ≤ page) :
    InRange gaps pageSize total page ↔ page ≤ lastPageNumber gaps pageSize total := by
  obtain ⟨⟨hone, hend⟩, hleast⟩ := isLeast_lastPageNumber gaps pageSize total
  constructor
  · rintro (hlt | rfl)
    · -- A page after the last one starts where all records are behind.
      by_contra hgt
      have hmono := pageOffset_mono gaps pageSize
        (show lastPageNumber gaps pageSize total + 1 ≤ page by omega)
      exact absurd hlt (not_lt.mpr (le_trans hend hmono))
    · exact hone
  · intro hle
    by_contra hout
    obtain ⟨hoffset, hne⟩ := not_or.mp hout
    -- Otherwise the page before it would be the last one.
    have hprev : lastPageNumber gaps pageSize total ≤ page - 1 := by
      refine hleast ⟨by omega, ?_⟩
      rw [show page - 1 + 1 = page by omega]
      exact not_lt.mp hoffset
    omega

end EntityQuery
