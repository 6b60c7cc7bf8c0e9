import EntityQuery.Word
import EntityQuery.Text.Blank

/-!
# Decimals of a fixed number of places

Amounts are compared as integers: a decimal at `places` places is the number that it becomes after
multiplication by `scale places`. This module reads a decimal literal into that integer, rounding
half away from zero, and writes the integer back. A literal is read digit by digit into words of the
double width, and each operation on them says when it leaves them.
-/

namespace EntityQuery.Decimal

/-- The largest number of places that literals are read at. -/
def maxPlaces : Nat := 18

/-- Why a literal has no value. -/
inductive Error where
  /-- Nothing is left of the literal once it is trimmed. -/
  | empty
  /-- The literal is no decimal number. -/
  | malformed (literal : String)
  /-- The value is no signed word. -/
  | overflow (literal : String)
  /-- More places were asked for than are supported. -/
  | unsupportedPlaces (places : Nat)
  deriving DecidableEq, Repr

/-- The name of a fault. -/
def Error.name : Error → String
  | .empty => "Empty"
  | .malformed _ => "Malformed"
  | .overflow _ => "Overflow"
  | .unsupportedPlaces _ => "UnsupportedPlaces"

/-- The wording of an error. -/
def Error.message : Error → String
  | .empty => "empty decimal literal"
  | .malformed literal => s!"malformed decimal literal `{literal}`"
  | .overflow literal => s!"decimal literal `{literal}` does not fit the fixed-point range"
  | .unsupportedPlaces places => s!"unsupported number of decimal places {places} (max {maxPlaces})"

/-- The value of one decimal digit. -/
def digitValue (c : Char) : Nat := c.toNat - '0'.toNat

/-- What one becomes at `places` places: a one followed by that many zeros. -/
def scale : (places : Nat) → Nat
  | 0 => 1
  | places + 1 => 10 * scale places

/-- What one becomes is positive. -/
theorem scale_pos (places : Nat) : 0 < scale places := by
  induction places with
  | zero => exact Nat.one_pos
  | succ places ih => exact Nat.mul_pos (by decide) ih

/-- The value of a run of decimal digits. -/
def digitsValue (digits : List Char) : Nat :=
  digits.foldl (fun n c => 10 * n + digitValue c) 0

/-- Digits in front of others count for the places that the others take. -/
theorem digitsValue_append (a b : List Char) :
    digitsValue (a ++ b) = digitsValue a * scale b.length + digitsValue b := by
  have go (b : List Char) (n : Nat) :
      b.foldl (fun n c => 10 * n + digitValue c) n
        = n * scale b.length + b.foldl (fun n c => 10 * n + digitValue c) 0 := by
    induction b generalizing n with
    | nil => simp [scale]
    | cons c r ih =>
      simp only [List.foldl_cons, List.length_cons, scale]
      rw [ih, ih (10 * 0 + digitValue c)]
      grind
  simp only [digitsValue, List.foldl_append]
  rw [go]

/-- The decimal digits of a number have it for their value. -/
theorem digitsValue_toDigits (n : Nat) : digitsValue (Nat.toDigits 10 n) = n :=
  Nat.ofDigitChars_toDigits (by decide) (by decide)

/-! ## The parts of a literal -/

/-- The parts of an unsigned literal: what stands before its first point, and what after it. -/
def splitPoint (s : List Char) : List Char × List Char :=
  (s.takeWhile (· != '.'), (s.dropWhile (· != '.')).drop 1)

/-- The sign of a literal, negative when true, and what follows it. -/
def splitSign : List Char → Bool × List Char
  | '-' :: r => (true, r)
  | '+' :: r => (false, r)
  | s => (false, s)

/-- A literal in its parts. -/
structure Literal where
  /-- Whether the sign is a minus. -/
  negative : Bool
  /-- What stands before the point. -/
  whole : List Char
  /-- What stands after the point. -/
  fraction : List Char
  deriving DecidableEq, Repr

namespace Literal

/-- The parts of a trimmed text. -/
def ofChars (s : List Char) : Literal :=
  let (negative, unsigned) := splitSign s
  let (whole, fraction) := splitPoint unsigned
  { negative, whole, fraction }

/-- Whether the parts are those of a decimal number: they hold a digit, and digits only. -/
def isDecimal (l : Literal) : Bool :=
  !(l.whole.isEmpty && l.fraction.isEmpty)
    && (l.whole.all Char.isDigit && l.fraction.all Char.isDigit)

end Literal

/-! ## Conversion -/

/-- Why a computation on words of the double width ends without a signed word. -/
inductive Fault where
  /-- An operation left the words of the double width. -/
  | width
  /-- The number is no signed word. -/
  | range
  deriving DecidableEq, Repr

/-- The result of an operation on words of the double width. -/
def wide (v : Int) : Except Fault Int := if Wide.InRange v then .ok v else .error .width

/-- The number as the result of a conversion. -/
def narrow (v : Int) : Except Fault Int := if Signed.InRange v then .ok v else .error .range

/-- The number with one more digit at its end. -/
def push (n : Int) (digit : Nat) : Except Fault Int := do
  let shifted ← wide (n * 10)
  wide (shifted + digit)

/-- The number that the digits of a whole part make behind those of `n`. It is refused at the first
digit that makes it larger than the largest signed word. -/
def readWhole (n : Int) : (digits : List Char) → Except Fault Int
  | [] => .ok n
  | c :: rest => do
    let m ← push n (digitValue c)
    if Signed.max < m then .error .range else readWhole m rest

/-- The number that `places` digits of a fraction make behind those of `n`, where zeros stand in for
the digits that are missing. One is added when the digit that comes next is five or more. -/
def readFraction (n : Int) (fraction : List Char) : (places : Nat) → Except Fault Int
  | 0 =>
    match fraction with
    | [] => .ok n
    | c :: _ => if 5 ≤ digitValue c then wide (n + 1) else .ok n
  | places + 1 =>
    match fraction with
    | [] => do readFraction (← push n 0) [] places
    | c :: rest => do readFraction (← push n (digitValue c)) rest places

/-- The number with a sign before it, which is a minus when `negative` holds. -/
def withSign (negative : Bool) (size : Int) : Except Fault Int :=
  if negative then wide (-size) else .ok size

/-- The integer that a decimal number stands for at `places` places. A whole part beyond the largest
signed word is refused whatever the sign. -/
def Literal.convert (l : Literal) (places : Nat) : Except Fault Int := do
  let whole ← readWhole 0 l.whole
  let size ← readFraction whole l.fraction places
  let value ← withSign l.negative size
  narrow value

/-- The integer that a literal stands for at `places` places. -/
def ofText (text : String) (places : Nat) : Except Error Int :=
  if maxPlaces < places then .error (.unsupportedPlaces places)
  else
    let trimmed := Text.trim text.toList
    if trimmed.isEmpty then .error .empty
    else
      let literal := Literal.ofChars trimmed
      if !literal.isDecimal then .error (.malformed text)
      else (literal.convert places).mapError fun _ => .overflow text

/-- More places than are supported are an error, whatever the text. -/
theorem ofText_of_places_gt {text : String} {places : Nat} (h : maxPlaces < places) :
    ofText text places = .error (.unsupportedPlaces places) := by
  simp [ofText, h]

/-- A blank text is an error of its own. -/
theorem ofText_of_blank {text : String} {places : Nat} (h : places ≤ maxPlaces)
    (ht : Text.trim text.toList = []) : ofText text places = .error .empty := by
  simp [ofText, ht, Nat.not_lt.2 h]

/-- The literal of an integer at `places` places: as many fraction digits as there are places, and
at least one digit before the point. -/
def toText (value : Int) (places : Nat) : String :=
  if places = 0 then toString value
  else
    let sign := if value < 0 then "-" else ""
    let size := value.natAbs
    let fraction := (Nat.toDigits 10 (size % scale places)).leftpad places '0'
    sign ++ toString (size / scale places) ++ "." ++ String.ofList fraction

end EntityQuery.Decimal
