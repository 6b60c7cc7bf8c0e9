import EntityQuery.Word

/-!
# Page expressions

A page expression is a condition on the number of a page, such as "every second page" or "pages two
to four". Its operands are computed in signed words; an operand whose arithmetic leaves them, or
divides by zero, is undefined, and a comparison with an undefined side does not hold.
-/

namespace EntityQuery

/-- The arithmetic of operands. -/
inductive ArithOp where
  | add | sub | mul | div | rem
  deriving DecidableEq, Repr

/-- The comparisons of operands. -/
inductive CompareOp where
  | eq | ne | lt | le | gt | ge
  deriving DecidableEq, Repr

/-- One side of a comparison. -/
inductive Operand where
  /-- The number of the page. -/
  | page
  | constant (value : Int)
  | binary (op : ArithOp) (left right : Operand)
  deriving DecidableEq, Repr

/-- A condition on a page number. -/
inductive PageExpr where
  | literal (value : Bool)
  | compare (left : Operand) (op : CompareOp) (right : Operand)
  | and (left right : PageExpr)
  | or (left right : PageExpr)
  | not (inner : PageExpr)
  deriving DecidableEq, Repr

/-- The result of an operation, when it has one. Division goes toward zero and the remainder has
the sign of the dividend; the remainder is undefined wherever the quotient is. -/
def ArithOp.apply : ArithOp → Int → Int → Option Int
  | .add, l, r => Signed.narrow (l + r)
  | .sub, l, r => Signed.narrow (l - r)
  | .mul, l, r => Signed.narrow (l * r)
  | .div, l, r => if r = 0 then none else Signed.narrow (l.tdiv r)
  | .rem, l, r => if r = 0 then none else (Signed.narrow (l.tdiv r)).map fun _ => l.tmod r

/-- Whether a comparison holds of two values. -/
def CompareOp.holds : CompareOp → Int → Int → Bool
  | .eq, l, r => l == r
  | .ne, l, r => l != r
  | .lt, l, r => l < r
  | .le, l, r => l ≤ r
  | .gt, l, r => r < l
  | .ge, l, r => r ≤ l

namespace Operand

/-- The value on a page, when it is defined. -/
def eval (page : Int) : Operand → Option Int
  | .page => some page
  | .constant value => some value
  | .binary op left right => do op.apply (← left.eval page) (← right.eval page)

/-- Whether the page number occurs. -/
def mentionsPage : Operand → Bool
  | .page => true
  | .constant _ => false
  | .binary _ left right => left.mentionsPage || right.mentionsPage

/-- The value of an operand that does not mention the page, when it is defined. -/
def constantValue (o : Operand) : Option Int := if o.mentionsPage then none else o.eval 0

/-- Without the page number, the page does not matter. -/
theorem eval_eq_of_not_mentionsPage {o : Operand} (h : o.mentionsPage = false) (p q : Int) :
    o.eval p = o.eval q := by
  induction o with
  | page => simp [mentionsPage] at h
  | constant => rfl
  | binary op l r ihl ihr =>
    simp only [mentionsPage, Bool.or_eq_false_iff] at h
    simp only [eval, ihl h.1, ihr h.2]

/-- An operand with a constant value has it on every page. -/
theorem eval_eq_of_constant {o : Operand} {c : Int} (h : o.constantValue = some c) (p : Int) :
    o.eval p = some c := by
  unfold constantValue at h
  split at h
  · simp at h
  · rename_i hm
    rw [eval_eq_of_not_mentionsPage (by simpa using hm) p 0, h]

end Operand

namespace PageExpr

/-- Whether the condition holds when the page number is this signed word. -/
def holds (page : Int) : PageExpr → Bool
  | .literal value => value
  | .compare left op right =>
    match left.eval page, right.eval page with
    | some l, some r => op.holds l r
    | _, _ => false
  | .and left right => left.holds page && right.holds page
  | .or left right => left.holds page || right.holds page
  | .not inner => !inner.holds page

/-- A conjunction holds when both conditions hold. -/
@[simp] theorem holds_and (p : Int) (a b : PageExpr) :
    (and a b).holds p = (a.holds p && b.holds p) := rfl

/-- A disjunction holds when either condition holds. -/
@[simp] theorem holds_or (p : Int) (a b : PageExpr) :
    (or a b).holds p = (a.holds p || b.holds p) := rfl

/-- The signed word that stands for a page number: the largest one for pages beyond it. -/
def pageValue (page : Nat) : Int := if (page : Int) ≤ Signed.max then page else Signed.max

/-- Whether the condition holds of a page, counted from one. -/
def matchesPage (e : PageExpr) (page : Nat) : Bool := e.holds (pageValue page)

/-- Both sides of every comparison on a page, from left to right. -/
def operandValues (page : Nat) : PageExpr → List (Option Int × Option Int)
  | .literal _ => []
  | .compare left _ right => [(left.eval (pageValue page), right.eval (pageValue page))]
  | .and left right | .or left right => left.operandValues page ++ right.operandValues page
  | .not inner => inner.operandValues page

end PageExpr

end EntityQuery
