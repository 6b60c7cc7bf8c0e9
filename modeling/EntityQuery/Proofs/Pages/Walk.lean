import EntityQuery.Proofs.Pages.Bound
import EntityQuery.Proofs.Pages.Table
import EntityQuery.Slicer.Memo

/-!
# The walk agrees with the table

The slicer finds the window of a page by walking the pages from the first one. It drops gaps on the
way, counts the last pages by division, and jumps to a far page in saturating words.
`windowOf_eq_tableWindow` shows that none of this changes the answer: the window is that of the
table. A slicer may also have remembered the window from an earlier call
(`Slicer.Reachable.remembers`), and `Slicer.window_eq_tableWindow` covers both.

The walk carries an invariant (`Walked`): the gaps that it still looks at are those that matter from
its page on, and its offset is that of the table. There are three ways to go on from there. The walk
divides when no gap is left (`Walked.divide`), it stops at the last page (`Walked.stop`), or it goes
on to the next page (`Walked.next`). Every page holds a record, so all pages beyond the signed words
are out of range, and the bounds of the gaps are only needed below them.
-/

namespace EntityQuery

/-! ## The gaps that matter -/

/-- Words that add up to a word are added exactly. -/
theorem Word.sum_eq {words : List ℕ} (h : words.sum < Word.modulus) :
    Word.sum words = words.sum := by
  rw [Word.sum, ← List.sum_eq_foldl, Word.wrap_of_lt h]

/-- A selection of gaps reserves no more places than all of them. -/
theorem sum_filter_le (gaps : List Gap) (p : Gap → Bool) :
    ((gaps.filter p).map Gap.size).sum ≤ (gaps.map Gap.size).sum :=
  ((List.filter_sublist).map Gap.size).sum_le_sum fun _ _ => Nat.zero_le _

/-- Gaps whose sizes add up to a word leave the room that the table gives. -/
theorem capacity_eq_pageRoom {gaps : List Gap} (hsum : (gaps.map Gap.size).sum < Word.modulus)
    (pageSize page : ℕ) : capacity gaps pageSize page = pageRoom gaps pageSize page := by
  have hmatching := sum_filter_le gaps (·.condition.matchesPage page)
  have hexact := Word.sum_eq (lt_of_le_of_lt hmatching hsum)
  exact congrArg (fun reserved => max 1 (pageSize - reserved)) hexact

/-- Two lists of gaps that agree from a page on: the same gaps match each page that is a signed
word. -/
def AgreeFrom (page : ℕ) (active gaps : List Gap) : Prop :=
  ∀ q, page ≤ q → (q : ℤ) ≤ Signed.max →
    active.filter (·.condition.matchesPage q) = gaps.filter (·.condition.matchesPage q)

/-- Gaps that agree leave the same room. -/
theorem AgreeFrom.pageRoom_eq {page : ℕ} {active gaps : List Gap} (h : AgreeFrom page active gaps)
    (pageSize : ℕ) {q : ℕ} (hq : page ≤ q) (hmax : (q : ℤ) ≤ Signed.max) :
    pageRoom active pageSize q = pageRoom gaps pageSize q := by
  rw [pageRoom, pageRoom, h q hq hmax]

/-- Gaps that agree from a page on agree from the next page on. -/
theorem AgreeFrom.succ {page : ℕ} {active gaps : List Gap} (h : AgreeFrom page active gaps) :
    AgreeFrom (page + 1) active gaps :=
  fun q hq hmax => h q (by omega) hmax

/-- The gaps that are dropped at a page match no later page. -/
theorem AgreeFrom.gapsFrom {page : ℕ} {active gaps : List Gap} (h : AgreeFrom page active gaps) :
    AgreeFrom page (EntityQuery.gapsFrom active page) gaps := by
  intro q hq hmax
  rw [← h q hq hmax, EntityQuery.gapsFrom, List.filter_filter]
  refine List.filter_congr fun g _ => ?_
  rw [Bool.and_eq_left_iff_imp]
  intro hmatch
  by_contra hdropped
  -- A gap is dropped for a bound before the page, so it cannot match there.
  simp only [Gap.mayMatchFrom, Option.all_eq_true, decide_eq_true_eq, not_forall] at hdropped
  obtain ⟨last, hlast, hlt⟩ := hdropped
  rw [PageExpr.matchesPage_of_lastPage_lt hlast (by omega) hmax] at hmatch
  exact absurd hmatch (by decide)

/-- Once no gap matters any more, pages are full. -/
theorem pageOffset_add {page : ℕ} {gaps : List Gap} (h : AgreeFrom page [] gaps) (hpage : 1 ≤ page)
    {pageSize : ℕ} (hsize : 1 ≤ pageSize) (n : ℕ) (hmax : ((page + n : ℕ) : ℤ) ≤ Signed.max + 1) :
    pageOffset gaps pageSize (page + n) = pageOffset gaps pageSize page + n * pageSize := by
  induction n with
  | zero => simp
  | succ n ih =>
    have hroom : pageRoom gaps pageSize (page + n) = pageSize := by
      rw [← h.pageRoom_eq pageSize (by omega) (by omega)]
      simp [pageRoom, hsize]
    rw [← add_assoc, pageOffset_succ gaps pageSize (by omega), ih (by omega), hroom]
    ring

/-! ## Full pages -/

/-- The full pages for some records hold them all, and one page less would not, if there is more
than one. -/
theorem fullPages_spec (records : ℕ) {pageSize : ℕ} (hsize : 1 ≤ pageSize) :
    1 ≤ fullPages records pageSize ∧ records ≤ fullPages records pageSize * pageSize ∧
      (fullPages records pageSize = 1 ∨ (fullPages records pageSize - 1) * pageSize < records) := by
  have hdiv := Nat.div_add_mod (records + pageSize - 1) pageSize
  have hmod := Nat.mod_lt (records + pageSize - 1) hsize
  unfold fullPages
  generalize (records + pageSize - 1) / pageSize = n at *
  generalize (records + pageSize - 1) % pageSize = rest at *
  rw [mul_comm] at hdiv
  -- Without records the quotient is zero, but there is a first page.
  rcases Nat.eq_zero_or_pos n with rfl | hn
  · refine ⟨le_max_left _ _, ?_, Or.inl rfl⟩
    omega
  · rw [max_eq_right hn]
    have hmul : pageSize ≤ n * pageSize := Nat.le_mul_of_pos_left pageSize hn
    refine ⟨hn, by omega, Or.inr ?_⟩
    rw [Nat.sub_one_mul]
    omega

/-- There are no more full pages than records, but for the first page. -/
theorem fullPages_le (records : ℕ) {pageSize : ℕ} (hsize : 1 ≤ pageSize) :
    fullPages records pageSize ≤ max 1 records := by
  obtain ⟨hone, -, hless⟩ := fullPages_spec records hsize
  rcases hless with h | h
  · omega
  · have hmul := Nat.le_mul_of_pos_right (fullPages records pageSize - 1) hsize
    omega

/-! ## What a walk finds -/

/-- What the walk for a page finds: the last page, the room on the first one, and the window of the
page if it is in range. A page out of range may be met too, then past the records. -/
structure Walk.Correct (gaps : List Gap) (requested pageSize total : ℕ) (w : Walk) : Prop where
  /-- The last page is that of the table. -/
  last : w.last = lastPageNumber gaps pageSize total
  /-- The room on the first page is that of the table. -/
  firstLimit : w.firstLimit = pageRoom gaps pageSize 1
  /-- A page in range is met with offset and room of the table. -/
  found : InRange gaps pageSize total requested →
    w.found = some (pageOffset gaps pageSize requested, pageRoom gaps pageSize requested)
  /-- A page out of range is met past the records, if it is met. -/
  missed : ¬InRange gaps pageSize total requested →
    ∀ offset limit, w.found = some (offset, limit) → total ≤ offset

/-- What is known when a walk comes to a page. -/
structure Walked (gaps : List Gap) (requested pageSize total : ℕ) (active : List Gap)
    (page offset : ℕ) (found : Option (ℕ × ℕ)) (firstLimit : Option ℕ) : Prop where
  /-- Pages are counted from one. -/
  one_le : 1 ≤ page
  /-- The gaps that are left are those that matter. -/
  agree : AgreeFrom page active gaps
  /-- The offset is that of the table. -/
  offset_eq : offset = pageOffset gaps pageSize page
  /-- Behind the first page, records are left. -/
  reached : page = 1 ∨ offset < total
  /-- The page asked for was met if it lies before. -/
  found_eq : found = if requested < page then
    some (pageOffset gaps pageSize requested, pageRoom gaps pageSize requested) else none
  /-- The room on the first page is known behind it. -/
  firstLimit_eq : firstLimit = if page = 1 then none else some (pageRoom gaps pageSize 1)

namespace Walked

variable {gaps active : List Gap} {requested pageSize total page offset : ℕ}
  {found : Option (ℕ × ℕ)} {firstLimit : Option ℕ}

/-- A walk starts at the first page, before all records. -/
theorem start (gaps : List Gap) {requested : ℕ} (pageSize total : ℕ) (h : 1 ≤ requested) :
    Walked gaps requested pageSize total gaps 1 0 none none where
  one_le := le_refl 1
  agree _ _ _ := rfl
  offset_eq := (pageOffset_one gaps pageSize).symm
  reached := Or.inl rfl
  found_eq := by rw [if_neg (by omega)]
  firstLimit_eq := by rw [if_pos rfl]

/-- The pages walked so far are all before the end of the records. -/
theorem page_le (h : Walked gaps requested pageSize total active page offset found firstLimit) :
    page ≤ max 1 total := by
  -- Every page before it holds a record, and a record is left.
  have hoffset := sub_one_le_pageOffset gaps pageSize page
  rw [← h.offset_eq] at hoffset
  rcases h.reached with hone | hlt
  · omega
  · omega

/-- A page behind the page of the walk cannot be the last one. -/
theorem le_of_le_pageOffset
    (h : Walked gaps requested pageSize total active page offset found firstLimit) {p : ℕ}
    (hp : 1 ≤ p) (hend : total ≤ pageOffset gaps pageSize (p + 1)) : page ≤ p := by
  by_contra hlt
  have hmono := pageOffset_mono gaps pageSize (show p + 1 ≤ page by omega)
  rw [← h.offset_eq] at hmono
  rcases h.reached with hone | hreached
  · omega
  · omega

/-- When no gap is left, the division gives the last page. -/
theorem last_divide (h : Walked gaps requested pageSize total active page offset found firstLimit)
    (hempty : gapsFrom active page = []) (hsize : 1 ≤ pageSize)
    (htotal : (total : ℤ) ≤ Signed.max) :
    Word.satAdd (page - 1) (fullPages (total - offset) pageSize)
      = lastPageNumber gaps pageSize total := by
  have hagree : AgreeFrom page [] gaps := hempty ▸ h.agree.gapsFrom
  have hone := h.one_le
  have hoffset := sub_one_le_pageOffset gaps pageSize page
  rw [← h.offset_eq] at hoffset
  obtain ⟨hpos, hcover, hless⟩ := fullPages_spec (total - offset) hsize
  have hfew := fullPages_le (total - offset) hsize
  generalize fullPages (total - offset) pageSize = n at *
  -- No page is counted beyond the number of records, so nothing saturates.
  have hbound : page - 1 + n ≤ max 1 total := by
    rcases h.reached with hfirst | hlt
    · omega
    · omega
  have hmax : Signed.max = 9223372036854775807 := rfl
  have hsum : Word.satAdd (page - 1) n = page - 1 + n := by
    unfold Word.satAdd Word.max
    omega
  -- The pages that the division counts hold all records that are left,
  have hend : total ≤ pageOffset gaps pageSize (page - 1 + n + 1) := by
    rw [show page - 1 + n + 1 = page + n by omega, pageOffset_add hagree hone hsize n (by omega),
      ← h.offset_eq]
    omega
  -- and no fewer pages do.
  have hleast : page - 1 + n ∈ lowerBounds
      {p | 1 ≤ p ∧ total ≤ pageOffset gaps pageSize (p + 1)} := by
    rintro p ⟨hp, hend⟩
    have hle := h.le_of_le_pageOffset hp hend
    by_contra hlt
    obtain ⟨k, rfl⟩ : ∃ k, p = page + k := ⟨p - page, by omega⟩
    rw [show page + k + 1 = page + (k + 1) by omega,
      pageOffset_add hagree hone hsize (k + 1) (by omega), ← h.offset_eq] at hend
    have hmul : (k + 1) * pageSize ≤ (n - 1) * pageSize := Nat.mul_le_mul_right _ (by omega)
    rcases hless with hn | hn
    · omega
    · omega
  rw [hsum]
  have hlast : IsLeast {p | 1 ≤ p ∧ total ≤ pageOffset gaps pageSize (p + 1)} (page - 1 + n) :=
    ⟨⟨by omega, hend⟩, hleast⟩
  exact hlast.unique (isLeast_lastPageNumber gaps pageSize total)

/-- When no gap is left, a page further on that is in range is met by the division. -/
theorem found_divide (h : Walked gaps requested pageSize total active page offset found firstLimit)
    (hempty : gapsFrom active page = []) (hsize : 1 ≤ pageSize) (htotal : (total : ℤ) ≤ Signed.max)
    (hle : page ≤ requested) (hin : InRange gaps pageSize total requested) :
    Word.satAdd offset (Word.satMul (requested - page) pageSize)
        = pageOffset gaps pageSize requested
      ∧ pageSize = pageRoom gaps pageSize requested := by
  have hagree : AgreeFrom page [] gaps := hempty ▸ h.agree.gapsFrom
  have hmax : Signed.max = 9223372036854775807 := rfl
  have hrequested := sub_one_le_pageOffset gaps pageSize requested
  obtain ⟨k, rfl⟩ : ∃ k, requested = page + k := ⟨requested - page, by omega⟩
  -- There are no more pages in range than records, but for the first page.
  have hsmall : ((page + k : ℕ) : ℤ) ≤ Signed.max := by
    rcases hin with hlt | hfirst
    · omega
    · omega
  have hoffset := pageOffset_add hagree h.one_le hsize k (by omega)
  rw [← h.offset_eq] at hoffset
  constructor
  · rw [show page + k - page = k by omega, hoffset]
    unfold Word.satAdd Word.satMul Word.max
    -- An offset in range is a word, so nothing saturates.
    rcases hin with hlt | hfirst
    · omega
    · rw [show k = 0 by have := h.one_le; omega]
      rcases h.reached with hone | hlt
      · rw [h.offset_eq, hone, pageOffset_one]
        simp
      · omega
  · rw [← hagree.pageRoom_eq pageSize (by omega) hsmall]
    simp [pageRoom, hsize]

/-- When no gap is left, a page further on that is out of range is met past the records. -/
theorem missed_divide (h : Walked gaps requested pageSize total active page offset found firstLimit)
    (hempty : gapsFrom active page = []) (hsize : 1 ≤ pageSize) (htotal : (total : ℤ) ≤ Signed.max)
    (hle : page ≤ requested) (hout : total ≤ pageOffset gaps pageSize requested) :
    total ≤ Word.satAdd offset (Word.satMul (requested - page) pageSize) := by
  have hagree : AgreeFrom page [] gaps := hempty ▸ h.agree.gapsFrom
  have hmax : Signed.max = 9223372036854775807 := rfl
  have hoffset := sub_one_le_pageOffset gaps pageSize page
  rw [← h.offset_eq] at hoffset
  obtain ⟨k, rfl⟩ : ∃ k, requested = page + k := ⟨requested - page, by omega⟩
  rw [show page + k - page = k by omega]
  have hfar : total ≤ offset + k * pageSize := by
    rcases le_or_gt ((page + k : ℕ) : ℤ) (Signed.max + 1) with hnear | hfar
    · rw [h.offset_eq, ← pageOffset_add hagree h.one_le hsize k hnear]
      exact hout
    · -- There are more pages before such a page than there are records.
      have hmul : k ≤ k * pageSize := Nat.le_mul_of_pos_right k hsize
      omega
  unfold Word.satAdd Word.satMul Word.max
  omega

/-- When no gap is left, the division finds what the table says. -/
theorem divide (h : Walked gaps requested pageSize total active page offset found firstLimit)
    (hempty : gapsFrom active page = []) (hsize : 1 ≤ pageSize)
    (htotal : (total : ℤ) ≤ Signed.max) :
    Walk.Correct gaps requested pageSize total
      { found := found.or
          (some (Word.satAdd offset (Word.satMul (requested - page) pageSize), pageSize))
        firstLimit := firstLimit.getD pageSize
        last := Word.satAdd (page - 1) (fullPages (total - offset) pageSize) } where
  last := h.last_divide hempty hsize htotal
  firstLimit := by
    rw [h.firstLimit_eq]
    split_ifs with hone
    · -- No gap is left on the first page, so it is a full page.
      have hagree : AgreeFrom page [] gaps := hempty ▸ h.agree.gapsFrom
      rw [← hagree.pageRoom_eq pageSize (by omega) (by decide)]
      simp [pageRoom, hsize]
    · rfl
  found hin := by
    rw [h.found_eq]
    split_ifs with hlt
    · rfl
    · obtain ⟨hoffset, hroom⟩ := h.found_divide hempty hsize htotal (not_lt.mp hlt) hin
      rw [hoffset, ← hroom]
      rfl
  missed hout offset' limit' hfound := by
    have hpast : total ≤ pageOffset gaps pageSize requested := not_lt.mp (not_or.mp hout).1
    rw [h.found_eq] at hfound
    split_ifs at hfound with hlt
    · simp only [Option.some_or, Option.some.injEq, Prod.mk.injEq] at hfound
      rw [← hfound.1]
      exact hpast
    · simp only [Option.none_or, Option.some.injEq, Prod.mk.injEq] at hfound
      rw [← hfound.1]
      exact h.missed_divide hempty hsize htotal (not_lt.mp hlt) hpast

/-- While a gap is left, the room on the page is that of the table. -/
theorem capacity_eq (h : Walked gaps requested pageSize total active page offset found firstLimit)
    (hsum : (active.map Gap.size).sum < Word.modulus) (hmax : (page : ℤ) ≤ Signed.max) :
    capacity (gapsFrom active page) pageSize page = pageRoom gaps pageSize page := by
  have hactive : ((gapsFrom active page).map Gap.size).sum < Word.modulus :=
    lt_of_le_of_lt (sum_filter_le active _) hsum
  rw [capacity_eq_pageRoom hactive]
  exact h.agree.gapsFrom.pageRoom_eq pageSize (le_refl page) hmax

/-- What is known of the page asked for after one more page. -/
theorem found_succ (h : Walked gaps requested pageSize total active page offset found firstLimit) :
    (if page = requested then some (offset, pageRoom gaps pageSize page) else found)
      = if requested < page + 1 then
          some (pageOffset gaps pageSize requested, pageRoom gaps pageSize requested)
        else none := by
  rw [h.found_eq, h.offset_eq]
  rcases lt_trichotomy page requested with hlt | rfl | hgt
  · rw [if_neg (by omega), if_neg (by omega), if_neg (by omega)]
  · rw [if_pos rfl, if_pos (by omega)]
  · rw [if_neg (by omega), if_pos (by omega), if_pos (by omega)]

/-- What is known of the first page after one more page. -/
theorem firstLimit_getD
    (h : Walked gaps requested pageSize total active page offset found firstLimit) :
    firstLimit.getD (pageRoom gaps pageSize page) = pageRoom gaps pageSize 1 := by
  rw [h.firstLimit_eq]
  split_ifs with hone
  · rw [hone]
    rfl
  · rfl

/-- A page at whose end no record is left is the last page. -/
theorem last_stop (h : Walked gaps requested pageSize total active page offset found firstLimit)
    (hend : total ≤ offset + pageRoom gaps pageSize page) :
    page = lastPageNumber gaps pageSize total := by
  have hlast : IsLeast {p | 1 ≤ p ∧ total ≤ pageOffset gaps pageSize (p + 1)} page := by
    refine ⟨⟨h.one_le, ?_⟩, fun p hp => h.le_of_le_pageOffset hp.1 hp.2⟩
    rw [pageOffset_succ gaps pageSize h.one_le, ← h.offset_eq]
    exact hend
  exact hlast.unique (isLeast_lastPageNumber gaps pageSize total)

/-- A walk that stops at the end of the records has found what the table says. -/
theorem stop (h : Walked gaps requested pageSize total active page offset found firstLimit)
    (hrequested : 1 ≤ requested) (hend : total ≤ offset + pageRoom gaps pageSize page) :
    Walk.Correct gaps requested pageSize total
      { found :=
          if page = requested then some (offset, pageRoom gaps pageSize page) else found
        firstLimit := firstLimit.getD (pageRoom gaps pageSize page)
        last := page } where
  last := h.last_stop hend
  firstLimit := h.firstLimit_getD
  found hin := by
    -- A page in range is no later than the last page, which the walk has come to.
    rw [h.found_succ, if_pos]
    have hle := (inRange_iff hrequested).mp hin
    rw [← h.last_stop hend] at hle
    omega
  missed hout offset' limit' hfound := by
    rw [h.found_succ] at hfound
    split_ifs at hfound with hlt
    simp only [Option.some.injEq, Prod.mk.injEq] at hfound
    rw [← hfound.1]
    exact not_lt.mp (not_or.mp hout).1

/-- A walk that goes on from a page keeps its invariant. -/
theorem next (h : Walked gaps requested pageSize total active page offset found firstLimit)
    (hend : ¬total ≤ offset + pageRoom gaps pageSize page) :
    Walked gaps requested pageSize total (gapsFrom active page) (page + 1)
      (offset + pageRoom gaps pageSize page)
      (if page = requested then some (offset, pageRoom gaps pageSize page) else found)
      (some (firstLimit.getD (pageRoom gaps pageSize page))) where
  one_le := by omega
  agree := h.agree.gapsFrom.succ
  offset_eq := by rw [pageOffset_succ gaps pageSize h.one_le, h.offset_eq]
  reached := Or.inr (not_le.mp hend)
  found_eq := h.found_succ
  firstLimit_eq := by
    have hone := h.one_le
    rw [if_neg (by omega), h.firstLimit_getD]

end Walked

/-- A walk finds what the table says, from any page that it has come to. -/
theorem walkFrom_correct {gaps : List Gap} {requested pageSize total : ℕ}
    (hrequested : 1 ≤ requested) (hsize : 1 ≤ pageSize) (htotal : (total : ℤ) ≤ Signed.max)
    (active : List Gap) (page offset : ℕ) (found : Option (ℕ × ℕ)) (firstLimit : Option ℕ)
    (hsum : (active.map Gap.size).sum < Word.modulus)
    (h : Walked gaps requested pageSize total active page offset found firstLimit) :
    (walkFrom requested pageSize total active page offset found firstLimit).Correct
      gaps requested pageSize total := by
  -- The walk does not come to a page whose number is no signed word.
  have hmax : (page : ℤ) ≤ Signed.max := by
    have hle := h.page_le
    have : (1 : ℤ) ≤ Signed.max := by decide
    omega
  have hroom := h.capacity_eq hsum hmax
  rw [walkFrom]
  simp only [List.isEmpty_iff, hroom]
  by_cases hempty : gapsFrom active page = []
  · rw [if_pos hempty]
    exact h.divide hempty hsize htotal
  · rw [if_neg hempty]
    by_cases hend : total ≤ offset + pageRoom gaps pageSize page
    · rw [if_pos hend]
      exact h.stop hrequested hend
    · rw [if_neg hend]
      exact walkFrom_correct hrequested hsize htotal _ _ _ _ _
        (lt_of_le_of_lt (sum_filter_le active _) hsum) (h.next hend)
termination_by total - offset
decreasing_by
  have := pageRoom_pos gaps pageSize page
  omega

/-- The walk gives the window of the table. -/
theorem windowOf_eq_tableWindow {gaps : List Gap} {requested pageSize total : ℕ}
    (hsum : (gaps.map Gap.size).sum < Word.modulus) (hrequested : 1 ≤ requested)
    (hsize : 1 ≤ pageSize) (htotal : (total : ℤ) ≤ Signed.max) :
    windowOf gaps requested pageSize total = tableWindow gaps requested pageSize total := by
  obtain ⟨hlast, hfirst, hfound, hmissed⟩ := walkFrom_correct hrequested hsize htotal gaps 1 0 none
    none hsum (Walked.start gaps pageSize total hrequested)
  unfold windowOf tableWindow
  simp only [hlast, hfirst]
  by_cases hin : InRange gaps pageSize total requested
  · rw [hfound hin, if_pos hin]
    exact if_pos hin
  · -- Where such a page is met, it is met past the records, and then it is not found either.
    rw [if_neg hin]
    have hne := (not_or.mp hin).2
    split
    · rename_i offset limit hsome
      have hle := hmissed hin offset limit hsome
      exact if_neg (by omega)
    · rfl

/-! ## Slicers -/

namespace Slicer

/-- The slicers for some gaps that calls can lead to, in any order and with any arguments. -/
inductive Reachable (gaps : List Gap) : Slicer → Prop
  /-- A new slicer remembers nothing. -/
  | fresh : Reachable gaps { gaps }
  /-- A call may let a slicer remember a window, and forget others. -/
  | window {s s' : Slicer} {number size total : ℕ} {w : Window} (hs : Reachable gaps s)
      (h : s.window number size total = .ok (w, s')) : Reachable gaps s'

/-- All windows that a slicer remembers are those that the walk gives. -/
structure Remembers (gaps : List Gap) (s : Slicer) : Prop where
  /-- The slicer is for these gaps. -/
  gaps_eq : s.gaps = gaps
  /-- A remembered window is that of the walk. -/
  memo_eq : ∀ number size total w, s.memo[(number, size, total)]? = some w →
    w = windowOf gaps number size total

/-- A slicer that comes to know a window of the walk still knows only such windows. -/
theorem Remembers.remember {gaps : List Gap} {s : Slicer} (h : Remembers gaps s)
    (number size total : ℕ) :
    Remembers gaps (s.remember (number, size, total) (windowOf gaps number size total)) where
  gaps_eq := h.gaps_eq
  memo_eq number' size' total' w hw := by
    simp only [Slicer.remember, Std.HashMap.getElem?_insert] at hw
    -- The window itself is remembered; of the others, all are kept or all are forgotten.
    split_ifs at hw with hkey hfull
    · simp only [beq_iff_eq, Prod.mk.injEq] at hkey
      obtain ⟨rfl, rfl, rfl⟩ := hkey
      exact (Option.some.inj hw).symm
    · simp at hw
    · exact h.memo_eq number' size' total' w hw

/-- A call with a page number and a page size gives the window of the walk, and the slicer still
knows only such windows. -/
theorem Remembers.window {gaps : List Gap} {s : Slicer} (h : Remembers gaps s) {number size : ℕ}
    (hnumber : 1 ≤ number) (hsize : 1 ≤ size) (total : ℕ) :
    ∃ s', s.window number size total = .ok (windowOf gaps number size total, s') ∧
      Remembers gaps s' := by
  unfold Slicer.window
  rw [if_neg (by omega)]
  split
  · rename_i w hw
    rw [h.memo_eq number size total w hw]
    exact ⟨s, rfl, h⟩
  · rw [h.gaps_eq]
    exact ⟨_, rfl, h.remember number size total⟩

/-- Whatever calls were made, a slicer remembers windows of the walk only. -/
theorem Reachable.remembers {gaps : List Gap} {s : Slicer} (h : Reachable gaps s) :
    Remembers gaps s := by
  induction h with
  | fresh => exact ⟨rfl, fun _ _ _ _ h => by simp at h⟩
  | @window s s' number size total w _ hw ih =>
    by_cases hpos : number = 0 ∨ size = 0
    · rw [window_eq_error hpos] at hw
      exact absurd hw (by simp)
    · have hnumber : 1 ≤ number := by omega
      have hsize : 1 ≤ size := by omega
      obtain ⟨s'', hs'', hrem⟩ := ih.window hnumber hsize total
      rw [hs''] at hw
      simp only [Except.ok.injEq, Prod.mk.injEq] at hw
      exact hw.2 ▸ hrem

/-- Whatever calls were made before, a call gives the window of the table. -/
theorem window_eq_tableWindow {gaps : List Gap} {s : Slicer} (hs : Reachable gaps s)
    (hsum : (gaps.map Gap.size).sum < Word.modulus) {number size total : ℕ}
    (hnumber : 1 ≤ number) (hsize : 1 ≤ size) (htotal : (total : ℤ) ≤ Signed.max) :
    ∃ s', s.window number size total = .ok (tableWindow gaps number size total, s') := by
  obtain ⟨s', hs', -⟩ := hs.remembers.window hnumber hsize total
  rw [windowOf_eq_tableWindow hsum hnumber hsize htotal] at hs'
  exact ⟨s', hs'⟩

/-- With two places reserved on the first page and more than a page on each of the first two, the
fourth page of ten places is met by the division. -/
theorem window_fourth_page :
    let gaps : List Gap :=
      [⟨2, .compare .page .eq (.constant 1)⟩, ⟨11, .compare .page .le (.constant 2)⟩]
    Reachable gaps { gaps } ∧ (gaps.map Gap.size).sum < Word.modulus ∧
      ((30 : ℕ) : ℤ) ≤ Signed.max ∧
      ∃ s', Slicer.window { gaps } 4 10 30 = .ok (tableWindow gaps 4 10 30, s') :=
  ⟨.fresh, by decide, by decide,
    window_eq_tableWindow .fresh (by decide) (by decide) (by decide) (by decide)⟩

end Slicer

end EntityQuery
