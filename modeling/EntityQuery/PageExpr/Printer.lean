import EntityQuery.PageExpr.Basic

/-!
# Writing page expressions

Every operation and every connective is put between parentheses, so the written form shows the
tree.
-/

namespace EntityQuery

/-- The written form of the page number. -/
def pageVariable : List Char := "$pageNumber".toList

/-- The sign of an operation. -/
def ArithOp.symbol : ArithOp → List Char
  | .add => ['+']
  | .sub => ['-']
  | .mul => ['*']
  | .div => ['/']
  | .rem => ['%']

/-- The sign of a comparison. -/
def CompareOp.symbol : CompareOp → List Char
  | .eq => ['=', '=']
  | .ne => ['!', '=']
  | .lt => ['<']
  | .le => ['<', '=']
  | .gt => ['>']
  | .ge => ['>', '=']

/-- The decimal digits of a natural number. -/
def decimalDigits (n : Nat) : List Char := Nat.toDigits 10 n

/-- The written form of a constant. -/
def renderConstant (value : Int) : List Char :=
  if value < 0 then '-' :: decimalDigits value.natAbs else decimalDigits value.toNat

/-- The written form of an operand. -/
def Operand.render : Operand → List Char
  | .page => pageVariable
  | .constant value => renderConstant value
  | .binary op left right => '(' :: left.render ++ ' ' :: op.symbol ++ ' ' :: right.render ++ [')']

/-- The written form of a page expression. -/
def PageExpr.render : PageExpr → List Char
  | .literal value => if value then "true".toList else "false".toList
  | .compare left op right => left.render ++ ' ' :: op.symbol ++ ' ' :: right.render
  | .and left right => '(' :: left.render ++ [' ', '&', '&', ' '] ++ right.render ++ [')']
  | .or left right => '(' :: left.render ++ [' ', '|', '|', ' '] ++ right.render ++ [')']
  | .not inner => '!' :: '(' :: inner.render ++ [')']

/-- The written form of an operand in front of a text. It takes a step for each character, while
joining the forms of the parts copies them at every level. -/
def Operand.renderOnto : Operand → List Char → List Char
  | .page, s => pageVariable ++ s
  | .constant value, s => renderConstant value ++ s
  | .binary op left right, s =>
    '(' :: left.renderOnto (' ' :: (op.symbol ++ ' ' :: right.renderOnto (')' :: s)))

/-- In front of a text stands the written form of the operand. -/
theorem Operand.renderOnto_eq (o : Operand) (s : List Char) :
    o.renderOnto s = o.render ++ s := by
  induction o generalizing s <;> simp [renderOnto, render, *]

/-- The written form of a page expression in front of a text. -/
def PageExpr.renderOnto : PageExpr → List Char → List Char
  | .literal value, s => (if value then "true".toList else "false".toList) ++ s
  | .compare left op right, s => left.renderOnto (' ' :: (op.symbol ++ ' ' :: right.renderOnto s))
  | .and left right, s =>
    '(' :: left.renderOnto (' ' :: '&' :: '&' :: ' ' :: right.renderOnto (')' :: s))
  | .or left right, s =>
    '(' :: left.renderOnto (' ' :: '|' :: '|' :: ' ' :: right.renderOnto (')' :: s))
  | .not inner, s => '!' :: '(' :: inner.renderOnto (')' :: s)

/-- In front of a text stands the written form of the expression. -/
theorem PageExpr.renderOnto_eq (e : PageExpr) (s : List Char) :
    e.renderOnto s = e.render ++ s := by
  induction e generalizing s <;> simp [renderOnto, render, Operand.renderOnto_eq, *]

/-- The written form as a string. -/
def PageExpr.toText (e : PageExpr) : String := String.ofList (e.renderOnto [])

/-- As a string, an expression is its written form. -/
theorem PageExpr.toText_eq (e : PageExpr) : e.toText = String.ofList e.render := by
  simp [toText, renderOnto_eq]

end EntityQuery
