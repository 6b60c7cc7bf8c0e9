import EntityQuery.Text.Printable

/-!
# Quoted text

Error messages show a text between double quotes. A quote and a backslash are preceded by a
backslash, four control characters have letters of their own, and any other character that is not
printable is written as its code point in lowercase hexadecimal between braces.
-/

namespace EntityQuery.Text

/-- The lowercase hexadecimal digits of a number, without leading zeros. -/
def hex (n : Nat) : List Char := Nat.toDigits 16 n

/-- How one character is written between quotes. -/
def escape (c : Char) : List Char :=
  if c = '"' then ['\\', '"']
  else if c = '\\' then ['\\', '\\']
  else if c = '\n' then ['\\', 'n']
  else if c = '\r' then ['\\', 'r']
  else if c = '\t' then ['\\', 't']
  else if c = '\x00' then ['\\', '0']
  else if isPrintable c then [c]
  else ['\\', 'u', '\x7b'] ++ hex c.toNat ++ ['\x7d']

/-- The text between double quotes. -/
def quote (s : List Char) : List Char := '"' :: s.flatMap escape ++ ['"']

/-- A character is plain when it is printable and is neither a quote nor a backslash. -/
def IsPlain (c : Char) : Prop := isPrintable c ∧ c ≠ '"' ∧ c ≠ '\\'

end EntityQuery.Text
