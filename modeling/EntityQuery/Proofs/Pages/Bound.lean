import EntityQuery.PageExpr.Bound
import Mathlib.Tactic

/-!
# The last page of a page expression is a bound

`PageExpr.lastPage` is read off the comparisons of an expression without trying any page. This
module shows what it is good for: on a page after it the expression does not hold, as long as page
numbers are signed words (`PageExpr.matchesPage_of_lastPage_lt`). The argument follows the
expression. A comparison of the page number with a constant is bounded by the constant, one of two
constants has the same outcome on every page, a conjunction is bounded by either of its bounds, and
a disjunction by the larger one.
-/

namespace EntityQuery

/-- A comparison of a number with a constant fails beyond the bound of the comparison. -/
theorem CompareOp.holds_of_lastPage_lt {op : CompareOp} {bound : ℤ} {last page : ℕ}
    (h : op.lastPage bound = some last) (hp : last < page) : op.holds page bound = false := by
  cases op <;> simp only [lastPage, Option.some.injEq, reduceCtorEq] at h
  -- Only an equation and the two upper bounds have a last page.
  · have hne : (page : ℤ) ≠ bound := by omega
    simpa [holds] using hne
  · have hge : bound ≤ (page : ℤ) := by omega
    simpa [holds] using hge
  · have hgt : bound < (page : ℤ) := by omega
    simpa [holds] using hgt

namespace PageExpr

/-- A page number that is a signed word stands for itself. -/
theorem pageValue_of_le {page : ℕ} (h : (page : ℤ) ≤ Signed.max) : pageValue page = page :=
  if_pos h

/-- On a page after the last page of a comparison, the comparison does not hold. -/
theorem holds_compare_of_lastPage_lt {left right : Operand} {op : CompareOp} {last page : ℕ}
    (h : compareLastPage left op right = some last) (hp : last < page) :
    (compare left op right).holds page = false := by
  unfold compareLastPage at h
  cases hl : left.constantValue with
  | none =>
    cases hr : right.constantValue with
    | none => simp [hl, hr] at h
    | some r =>
      -- The page number stands on the left.
      simp only [hl, hr] at h
      split_ifs at h with hleft
      subst hleft
      simp only [holds, Operand.eval, Operand.eval_eq_of_constant hr]
      exact CompareOp.holds_of_lastPage_lt h hp
  | some l =>
    cases hr : right.constantValue with
    | none =>
      -- It stands on the right, so the comparison is turned around.
      simp only [hl, hr] at h
      split_ifs at h with hright
      subst hright
      simp only [holds, Operand.eval, Operand.eval_eq_of_constant hl]
      rw [← CompareOp.holds_flip]
      exact CompareOp.holds_of_lastPage_lt h hp
    | some r =>
      -- Two constants compare alike on every page.
      simp only [hl, hr] at h
      split_ifs at h with hholds
      simp only [holds, Operand.eval_eq_of_constant hl, Operand.eval_eq_of_constant hr]
      simpa using hholds

/-- On a page after its last page, an expression does not hold. -/
theorem holds_of_lastPage_lt {e : PageExpr} {last page : ℕ} (h : e.lastPage = some last)
    (hp : last < page) : e.holds page = false := by
  -- The bounds of the parts are found with the expression, so they are not known beforehand.
  induction e generalizing last with
  | literal value =>
    cases value with
    | false => rfl
    | true => simp [lastPage] at h
  | compare left op right => exact holds_compare_of_lastPage_lt h hp
  | and a b iha ihb =>
    rw [holds_and, Bool.and_eq_false_iff]
    simp only [lastPage] at h
    cases ha : a.lastPage with
    | none =>
      simp only [ha] at h
      exact Or.inr (ihb h hp)
    | some x =>
      cases hb : b.lastPage with
      | none =>
        simp only [ha, hb, Option.some.injEq] at h
        exact Or.inl (iha ha (by omega))
      | some y =>
        -- The smaller bound is below the page.
        simp only [ha, hb, Option.some.injEq] at h
        rcases le_total x y with hxy | hxy
        · exact Or.inl (iha ha (by omega))
        · exact Or.inr (ihb hb (by omega))
  | or a b iha ihb =>
    rw [holds_or, Bool.or_eq_false_iff]
    simp only [lastPage] at h
    cases ha : a.lastPage with
    | none => simp [ha] at h
    | some x =>
      cases hb : b.lastPage with
      | none => simp [ha, hb] at h
      | some y =>
        -- The page is beyond the larger bound, and so beyond both.
        simp only [ha, hb, Option.some.injEq] at h
        exact ⟨iha ha (by omega), ihb hb (by omega)⟩
  | not inner _ => simp [lastPage] at h

/-- On a page after its last page that is a signed word, an expression does not hold. -/
theorem matchesPage_of_lastPage_lt {e : PageExpr} {last page : ℕ} (h : e.lastPage = some last)
    (hp : last < page) (hpage : (page : ℤ) ≤ Signed.max) : e.matchesPage page = false := by
  rw [matchesPage, pageValue_of_le hpage]
  exact holds_of_lastPage_lt h hp

end PageExpr

end EntityQuery
