import EntityQuery.PageExpr.Printer
import EntityQuery.PageExpr.Reader
import EntityQuery.Text.Quoted
import EntityQuery.Decimal

/-!
# Reading page expressions

    expr    := or
    or      := and ("||" and)*
    and     := unary ("&&" unary)*
    unary   := "!" unary | "true" | "false" | compare | "(" expr ")"
    compare := arith ("==" | "!=" | "<=" | ">=" | "<" | ">") arith
    arith   := term (("+" | "-") term)*
    term    := factor (("*" | "/" | "%") factor)*
    factor  := "$pageNumber" | integer | "(" arith ")"

Blanks may stand between any two tokens, and an integer is a run of digits whose value is a signed
word. The alternatives of `unary` and of `factor` are tried in the order given.
-/

namespace EntityQuery

open Reader

/-- Why a text is no page expression. -/
inductive PageExpr.Fault where
  /-- Neither an opening nor a closing parenthesis, which was the last thing tried, stands here. -/
  | unexpected (rest : List Char)
  /-- A whole expression was read and something follows it. -/
  | trailing (rest : List Char)
  deriving DecidableEq, Repr

/-- A text that is no page expression, with the fault that was found. -/
structure PageExpr.Error where
  expression : String
  fault : PageExpr.Fault
  deriving DecidableEq, Repr

/-- The place of a fault and its code. -/
def PageExpr.Fault.message : PageExpr.Fault → String
  | .unexpected rest => describe rest "Char"
  | .trailing rest => describe rest "Eof"
where
  describe (rest : List Char) (code : String) : String :=
    "Parsing Error: Error \x7b input: " ++ String.ofList (Text.quote rest) ++ ", code: " ++ code
      ++ " \x7d"

/-- The wording of an error. -/
def PageExpr.Error.message (e : PageExpr.Error) : String :=
  "invalid page expression `" ++ e.expression ++ "`: " ++ e.fault.message

namespace Operand

/-- Reads a run of digits whose value is a signed word. -/
def integer : Reader Operand := fun s =>
  let digits := s.takeWhile Char.isDigit
  let value : Int := Decimal.digitsValue digits
  if digits.isEmpty || Signed.max < value then .error s
  else .ok (.constant value, s.dropWhile Char.isDigit)

/-- Reads what `inner` reads between parentheses. -/
def parenthesised (inner : Reader Operand) : Reader Operand :=
  mapped (fun r => r.2.1) (both (token ['('] ()) (both inner fun s => token [')'] () (skipBlank s)))

/-- Reads a factor; `inner` reads what stands between parentheses. -/
def factor (inner : Reader Operand) : Reader Operand :=
  padded (firstOf [token pageVariable .page, integer] (parenthesised inner))

/-- Reads a product. -/
def term (inner : Reader Operand) : Reader Operand :=
  leftAssoc
    (firstOf [token ArithOp.mul.symbol (.binary .mul), token ArithOp.div.symbol (.binary .div)]
      (token ArithOp.rem.symbol (.binary .rem)))
    (factor inner)

/-- Reads a sum. -/
def arith (inner : Reader Operand) : Reader Operand :=
  leftAssoc
    (firstOf [token ArithOp.add.symbol (.binary .add)] (token ArithOp.sub.symbol (.binary .sub)))
    (term inner)

/-- Reads an operand with fewer than `depth` parentheses inside each other. -/
def readerOfDepth : (depth : Nat) → Reader Operand
  | 0 => fun s => .error s
  | depth + 1 => arith (readerOfDepth depth)

/-- Reads an operand. No more parentheses can be open than there are characters. -/
def reader : Reader Operand := fun s => readerOfDepth (s.length + 1) s

end Operand

/-- Reads a comparison operator. -/
def CompareOp.reader : Reader CompareOp :=
  firstOf
    [token eq.symbol eq, token ne.symbol ne, token le.symbol le, token ge.symbol ge,
      token lt.symbol lt]
    (token gt.symbol gt)

namespace PageExpr

/-- Reads a comparison. -/
def comparison : Reader PageExpr :=
  mapped (fun r => .compare r.1 r.2.1 r.2.2)
    (both Operand.reader (both (padded CompareOp.reader) Operand.reader))

/-- Reads conditions joined by "and". -/
def conjunction (unary : Reader PageExpr) : Reader PageExpr :=
  leftAssoc (token ['&', '&'] .and) unary

/-- Reads conditions joined by "or". -/
def disjunction (unary : Reader PageExpr) : Reader PageExpr :=
  leftAssoc (token ['|', '|'] .or) (conjunction unary)

/-- Reads what `unary` reads after an exclamation mark. -/
def negation (unary : Reader PageExpr) : Reader PageExpr :=
  mapped (fun r => .not r.2) (both (token ['!'] ()) unary)

/-- Reads a disjunction of what `unary` reads between parentheses. -/
def parenthesised (unary : Reader PageExpr) : Reader PageExpr :=
  mapped (fun r => r.2.1)
    (both (token ['('] ()) (both (disjunction unary) (padded (token [')'] ()))))

/-- Reads a condition with fewer than `depth` negations and parentheses inside each other. -/
def unaryOfDepth : (depth : Nat) → Reader PageExpr
  | 0 => fun s => .error s
  | depth + 1 =>
    padded (firstOf
      [negation (unaryOfDepth depth), token "true".toList (.literal true),
        token "false".toList (.literal false), comparison]
      (parenthesised (unaryOfDepth depth)))

/-- Reads a page expression with the blanks around it. -/
def reader : Reader PageExpr := fun s =>
  padded (disjunction (unaryOfDepth (s.length + 1))) s

/-- The page expression that a list of characters spells. -/
def parseChars (s : List Char) : Except Fault PageExpr :=
  match reader s with
  | .error rest => .error (.unexpected rest)
  | .ok (e, []) => .ok e
  | .ok (_, rest) => .error (.trailing rest)

/-- The page expression that a text spells. -/
def parse (text : String) : Except Error PageExpr :=
  (parseChars text.toList).mapError fun fault => ⟨text, fault⟩

end PageExpr

end EntityQuery
