import EntityQuery.PageExpr.Basic

/-!
# The last page of a page expression

`PageExpr.lastPage` is a page number beyond which the condition never holds, read off the
comparisons of the page number itself with constants. `none` says that no such number was found.
-/

namespace EntityQuery

/-- The comparison that holds of the sides in the other order. -/
def CompareOp.flip : CompareOp → CompareOp
  | .lt => .gt
  | .le => .ge
  | .gt => .lt
  | .ge => .le
  | .eq => .eq
  | .ne => .ne

/-- A flipped comparison holds of the sides in the other order. -/
theorem CompareOp.holds_flip (op : CompareOp) (l r : Int) : op.flip.holds l r = op.holds r l := by
  cases op <;> simp [flip, holds, Bool.beq_comm, bne]

/-- The last page whose number compares so with a constant. -/
def CompareOp.lastPage (op : CompareOp) (bound : Int) : Option Nat :=
  match op with
  | .eq | .le => some bound.toNat
  | .lt => some (bound - 1).toNat
  | .ne | .gt | .ge => none

namespace PageExpr

/-- The last page on which a comparison can hold. Of two constants only the outcome matters; else
one side has to be the page number alone and the other a constant. -/
def compareLastPage (left : Operand) (op : CompareOp) (right : Operand) : Option Nat :=
  match left.constantValue, right.constantValue with
  | some l, some r => if op.holds l r then none else some 0
  | none, some r => if left = .page then op.lastPage r else none
  | some l, none => if right = .page then op.flip.lastPage l else none
  | none, none => none

/-- The last page on which the condition can hold, or `none` when no bound was found. -/
def lastPage : PageExpr → Option Nat
  | .literal value => if value then none else some 0
  | .compare left op right => compareLastPage left op right
  | .and left right =>
    match left.lastPage, right.lastPage with
    | some x, some y => some (min x y)
    | some x, none => some x
    | none, y => y
  | .or left right =>
    match left.lastPage, right.lastPage with
    | some x, some y => some (max x y)
    | _, _ => none
  | .not _ => none

end PageExpr

end EntityQuery
