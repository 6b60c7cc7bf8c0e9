import EntityQuery.Proofs.Pages.Bound
import EntityQuery.Proofs.PageExpr.RoundTrip

/-!
# Pages after the last page

An expression that is read from a text has constants that are signed words, and operands whose
values are signed words (`Operand.eval_inRange`); so its last page is one, too
(`PageExpr.lastPage_le_max`). After its last page the expression holds of no page that is a signed
word (`PageExpr.matchesPage_of_lastPage_lt`). The pages beyond all signed words are taken for the
largest of them (`PageExpr.pageValue_of_gt`), and here the bound fails in one case: where the last
page is the largest signed word itself, and the expression holds of it, all pages after it match
(`PageExpr.matchesPage_iff_of_lastPage_lt`).
-/

namespace EntityQuery

/-! ## Values of operands -/

/-- A remainder lies between zero and the dividend. -/
theorem Signed.inRange_tmod {l : ℤ} (hl : InRange l) (r : ℤ) : InRange (l.tmod r) := by
  have hsize : (l.tmod r).natAbs ≤ l.natAbs := by
    rw [Int.natAbs_tmod]
    exact Nat.mod_le _ _
  obtain ⟨hmin, hmax⟩ := hl
  unfold InRange
  unfold min max at *
  rcases Int.le_total 0 l with hpos | hneg
  · have hsign : 0 ≤ l.tmod r := Int.tmod_nonneg r hpos
    omega
  · have hsign : 0 ≤ (-l).tmod r := Int.tmod_nonneg r (by omega)
    rw [Int.neg_tmod] at hsign
    omega

/-- Where an operation has a result, it is a signed word. -/
theorem ArithOp.apply_inRange {op : ArithOp} {l r v : ℤ} (hl : Signed.InRange l)
    (h : op.apply l r = some v) : Signed.InRange v := by
  have hnarrow {w : ℤ} (hw : Signed.narrow w = some v) : Signed.InRange v := by
    obtain ⟨hin, rfl⟩ := Signed.narrow_eq_some_iff.mp hw
    exact hin
  cases op with
  | add => exact hnarrow h
  | sub => exact hnarrow h
  | mul => exact hnarrow h
  | div =>
    rw [apply] at h
    split_ifs at h with hr
    exact hnarrow h
  | rem =>
    rw [apply] at h
    split_ifs at h with hr
    obtain ⟨-, -, rfl⟩ := Option.map_eq_some_iff.mp h
    exact Signed.inRange_tmod hl r

/-- Where a writable operand has a value, it is a signed word, if the page number is one. -/
theorem Operand.eval_inRange {o : Operand} (h : o.Writable) {page v : ℤ}
    (hpage : Signed.InRange page) (hv : o.eval page = some v) : Signed.InRange v := by
  induction o generalizing v with
  | page =>
    obtain rfl := Option.some.inj hv
    exact hpage
  | constant value =>
    obtain rfl := Option.some.inj hv
    obtain ⟨hnonneg, hmax⟩ := h
    exact ⟨by unfold Signed.min; omega, hmax⟩
  | binary op left right ihl ihr =>
    obtain ⟨l, hl, hrest⟩ := Option.bind_eq_some_iff.mp hv
    obtain ⟨r, hr, happly⟩ := Option.bind_eq_some_iff.mp hrest
    exact ArithOp.apply_inRange (ihl h.1 hl) happly

/-- The constant value of a writable operand is a signed word. -/
theorem Operand.constantValue_le_max {o : Operand} (h : o.Writable) {c : ℤ}
    (hc : o.constantValue = some c) : c ≤ Signed.max := by
  rw [constantValue] at hc
  split_ifs at hc
  exact (eval_inRange h (by decide) hc).2

/-! ## The last page -/

/-- The last page of a comparison with a signed word is a signed word. -/
theorem CompareOp.lastPage_le_max {op : CompareOp} {bound : ℤ} (hbound : bound ≤ Signed.max)
    {last : ℕ} (h : op.lastPage bound = some last) : (last : ℤ) ≤ Signed.max := by
  unfold Signed.max at *
  cases op <;> simp only [lastPage, Option.some.injEq, reduceCtorEq] at h <;> omega

namespace PageExpr

/-- The last page of a comparison of writable operands is a signed word. -/
theorem compareLastPage_le_max {left right : Operand} (hleft : left.Writable)
    (hright : right.Writable) {op : CompareOp} {last : ℕ}
    (h : compareLastPage left op right = some last) : (last : ℤ) ≤ Signed.max := by
  unfold compareLastPage at h
  cases hl : left.constantValue with
  | none =>
    cases hr : right.constantValue with
    | none => simp [hl, hr] at h
    | some r =>
      simp only [hl, hr] at h
      split_ifs at h
      exact CompareOp.lastPage_le_max (Operand.constantValue_le_max hright hr) h
  | some l =>
    cases hr : right.constantValue with
    | none =>
      simp only [hl, hr] at h
      split_ifs at h
      exact CompareOp.lastPage_le_max (Operand.constantValue_le_max hleft hl) h
    | some r =>
      simp only [hl, hr] at h
      split_ifs at h
      obtain rfl := Option.some.inj h
      decide

/-- The last page of a writable expression is a signed word. -/
theorem lastPage_le_max {e : PageExpr} (he : e.Writable) {last : ℕ}
    (h : e.lastPage = some last) : (last : ℤ) ≤ Signed.max := by
  induction e generalizing last with
  | literal value =>
    rw [lastPage] at h
    split_ifs at h
    obtain rfl := Option.some.inj h
    decide
  | compare left op right => exact compareLastPage_le_max he.1 he.2 h
  | and a b iha ihb =>
    simp only [lastPage] at h
    cases ha : a.lastPage with
    | none =>
      simp only [ha] at h
      exact ihb he.2 h
    | some x =>
      have hx := iha he.1 ha
      cases hb : b.lastPage with
      | none =>
        simp only [ha, hb, Option.some.injEq] at h
        omega
      | some y =>
        simp only [ha, hb, Option.some.injEq] at h
        omega
  | or a b iha ihb =>
    simp only [lastPage] at h
    cases ha : a.lastPage with
    | none => simp [ha] at h
    | some x =>
      cases hb : b.lastPage with
      | none => simp [ha, hb] at h
      | some y =>
        have hx := iha he.1 ha
        have hy := ihb he.2 hb
        simp only [ha, hb, Option.some.injEq] at h
        omega
  | not inner _ => simp [lastPage] at h

/-! ## Pages beyond the signed words -/

/-- A page beyond the signed words is taken for the largest one. -/
theorem pageValue_of_gt {page : ℕ} (h : Signed.max < page) : pageValue page = Signed.max :=
  if_neg (by omega)

/-- A page beyond the signed words matches when the largest one does. -/
theorem matchesPage_of_gt (e : PageExpr) {page last : ℕ} (h : Signed.max < page)
    (hlast : (last : ℤ) = Signed.max) : e.matchesPage page = e.matchesPage last := by
  rw [matchesPage, matchesPage, pageValue_of_gt h, pageValue_of_le hlast.le, hlast]

/-- An expression that is read from a text matches no page after its last page, unless the last page
is the largest signed word and matches. -/
theorem matchesPage_iff_of_lastPage_lt {text : String} {e : PageExpr} (he : parse text = .ok e)
    {last page : ℕ} (h : e.lastPage = some last) (hp : last < page) :
    e.matchesPage page = true ↔ (last : ℤ) = Signed.max ∧ e.matchesPage last = true := by
  have hmax : (last : ℤ) ≤ Signed.max := lastPage_le_max (writable_of_parse he) h
  rcases hmax.lt_or_eq with hlt | heq
  · -- The largest signed word comes after the last page, and stands for all pages beyond it.
    have hnone : e.matchesPage page = false := by
      rcases le_or_gt (page : ℤ) Signed.max with hle | hgt
      · exact matchesPage_of_lastPage_lt h hp hle
      · obtain ⟨largest, hlargest⟩ : ∃ n : ℕ, (n : ℤ) = Signed.max :=
          ⟨Signed.max.toNat, Int.toNat_of_nonneg (by decide)⟩
        rw [e.matchesPage_of_gt hgt hlargest]
        exact matchesPage_of_lastPage_lt h (by omega) hlargest.le
    simp [hnone, hlt.ne]
  · -- All pages after the last page are beyond the signed words.
    rw [e.matchesPage_of_gt (by omega) heq]
    exact ⟨fun hlast => ⟨heq, hlast⟩, And.right⟩

/-- The seventh page is the last one of a disjunction, and none beyond the signed words matches. -/
theorem matchesPage_iff_of_lastPage_lt_seventh :
    let e : PageExpr := .or (.compare .page .le (.constant 4)) (.compare (.constant 7) .eq .page)
    parse "$pageNumber <= 4 || 7 == $pageNumber" = .ok e ∧ e.lastPage = some 7 ∧
      7 < 9223372036854775808 ∧ e.matchesPage 9223372036854775808 = false := by
  intro e
  have hparse : parse "$pageNumber <= 4 || 7 == $pageNumber" = .ok e := by cbv
  have hlast : e.lastPage = some 7 := by decide
  have hlt : 7 < 9223372036854775808 := by decide
  refine ⟨hparse, hlast, hlt, ?_⟩
  rw [← Bool.not_eq_true, matchesPage_iff_of_lastPage_lt hparse hlast hlt]
  rintro ⟨hmax, -⟩
  exact absurd hmax (by decide)

/-- The largest signed word is the last page of its equation, and the next page matches, too. -/
theorem matchesPage_next_of_largest :
    let e : PageExpr := .compare .page .eq (.constant 9223372036854775807)
    parse "$pageNumber == 9223372036854775807" = .ok e ∧
      e.lastPage = some 9223372036854775807 ∧ 9223372036854775807 < 9223372036854775808 ∧
      9223372036854775808 ≤ Word.max ∧ e.matchesPage 9223372036854775808 = true := by
  intro e
  have hparse : parse "$pageNumber == 9223372036854775807" = .ok e := by cbv
  exact ⟨hparse, by decide, by decide, by decide, by decide⟩

end PageExpr

end EntityQuery
