/-!
# JSON values

The values that attributes and option documents are made of. Members of an object keep their order
and may repeat a name, as they may in a document.
-/

namespace EntityQuery

/-- A JSON value. -/
inductive Json where
  | null
  | bool (value : Bool)
  | integer (value : Int)
  /-- A number with a fraction or an exponent, or a negative zero, as it was written. -/
  | decimal (literal : String)
  | string (value : String)
  | array (items : List Json)
  | object (members : List (String × Json))
  /-- An object with a member name that is no text, because a surrogate in it has no partner. The
  name is kept with a replacement for that surrogate. -/
  | illNamed (members : List (String × Json))
  deriving Repr, Inhabited

namespace Json

/-- Two lowercase hexadecimal digits. -/
def hexByte (n : Nat) : List Char := (Nat.toDigits 16 n).leftpad 2 '0'

/-- How a character is written in a string. -/
def escape (c : Char) : List Char :=
  if c = '"' then ['\\', '"']
  else if c = '\\' then ['\\', '\\']
  else if c = '\n' then ['\\', 'n']
  else if c = '\r' then ['\\', 'r']
  else if c = '\t' then ['\\', 't']
  else if c = '\x08' then ['\\', 'b']
  else if c = '\x0c' then ['\\', 'f']
  else if c.toNat < 0x20 then ['\\', 'u', '0', '0'] ++ hexByte c.toNat
  else [c]

/-- A string in its written form. -/
def renderString (s : String) : String :=
  "\"" ++ String.ofList (s.toList.flatMap escape) ++ "\""

mutual

/-- The written form of a value, without any blanks. -/
def render : Json → String
  | null => "null"
  | bool value => if value then "true" else "false"
  | integer value => toString value
  | decimal literal => literal
  | string value => renderString value
  | array items => "[" ++ ",".intercalate (renderItems items) ++ "]"
  | object members | illNamed members =>
    "\x7b" ++ ",".intercalate (renderMembers members) ++ "\x7d"

/-- The written forms of the items of an array. -/
def renderItems : List Json → List String
  | [] => []
  | item :: rest => item.render :: renderItems rest

/-- The written forms of the members of an object. -/
def renderMembers : List (String × Json) → List String
  | [] => []
  | (name, value) :: rest => (renderString name ++ ":" ++ value.render) :: renderMembers rest

end

/-- The truth value that a value is. -/
def bool? : Json → Option Bool
  | bool value => some value
  | _ => none

/-- The natural number below `bound` that a value is. -/
def natBelow? (bound : Nat) : Json → Option Nat
  | integer value => if 0 ≤ value ∧ value < bound then some value.toNat else none
  | _ => none

/-- The text that a value is. -/
def string? : Json → Option String
  | string value => some value
  | _ => none

/-- The members that a value has as an object. -/
def object? : Json → Option (List (String × Json))
  | object members => some members
  | _ => none

end Json

end EntityQuery
