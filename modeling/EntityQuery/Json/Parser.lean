import EntityQuery.Json.Basic

/-!
# Reading JSON documents

Blanks are space, tab, line feed and carriage return. A number has no leading zeros; it is kept as
an integer when it is written as one. In strings, control characters have to be escaped; a surrogate
that is not part of a pair is replaced, and in a member name it makes the object an ill-named one.
-/

namespace EntityQuery.Json

/-- The text from its first character on that is no blank. -/
def skipBlank (s : List Char) : List Char :=
  s.dropWhile fun c => c == ' ' || c == '\t' || c == '\n' || c == '\r'

/-- The value of a hexadecimal digit. -/
def hexValue? (c : Char) : Option Nat :=
  if '0' ≤ c ∧ c ≤ '9' then some (c.toNat - '0'.toNat)
  else if 'a' ≤ c ∧ c ≤ 'f' then some (c.toNat - 'a'.toNat + 10)
  else if 'A' ≤ c ∧ c ≤ 'F' then some (c.toNat - 'A'.toNat + 10)
  else none

/-- Reads four hexadecimal digits. -/
def readHex4 : List Char → Option (Nat × List Char)
  | a :: b :: c :: d :: rest => do
    let n := 4096 * (← hexValue? a) + 256 * (← hexValue? b) + 16 * (← hexValue? c) + (← hexValue? d)
    some (n, rest)
  | _ => none

/-- The character of a one-letter escape. -/
def simpleEscape? : Char → Option Char
  | '"' => some '"'
  | '\\' => some '\\'
  | '/' => some '/'
  | 'b' => some '\x08'
  | 'f' => some '\x0c'
  | 'n' => some '\n'
  | 'r' => some '\r'
  | 't' => some '\t'
  | _ => none

/-- The character that stands for a surrogate without its partner. -/
def replacement : Char := '\ufffd'

/-- Reads a string from behind its opening quote: its characters in reverse, whether all surrogates
were paired, and the rest behind the closing quote. -/
def readString : Nat → List Char → List Char → Bool → Option (List Char × Bool × List Char)
  | 0, _, _, _ => none
  | _, [], _, _ => none
  | _ + 1, '"' :: rest, done, sound => some (done, sound, rest)
  | n + 1, '\\' :: 'u' :: rest, done, sound => do
    let (unit, rest) ← readHex4 rest
    if 0xD800 ≤ unit ∧ unit < 0xDC00 then
      match rest with
      | '\\' :: 'u' :: next =>
        let (low, behind) ← readHex4 next
        if 0xDC00 ≤ low ∧ low < 0xE000 then
          let code := 0x10000 + (unit - 0xD800) * 0x400 + (low - 0xDC00)
          readString n behind (Char.ofNat code :: done) sound
        else readString n rest (replacement :: done) false
      | _ => readString n rest (replacement :: done) false
    else if 0xDC00 ≤ unit ∧ unit < 0xE000 then readString n rest (replacement :: done) false
    else readString n rest (Char.ofNat unit :: done) sound
  | n + 1, '\\' :: c :: rest, done, sound => do
    readString n rest ((← simpleEscape? c) :: done) sound
  | n + 1, c :: rest, done, sound =>
    if c.toNat < 0x20 then none else readString n rest (c :: done) sound

/-- Reads a run of digits that is not empty. -/
def readDigits (s : List Char) : Option (List Char × List Char) :=
  let digits := s.takeWhile Char.isDigit
  if digits.isEmpty then none else some (digits, s.dropWhile Char.isDigit)

/-- Reads the fraction of a number, which may be absent. -/
def readFraction : List Char → Option (List Char × List Char)
  | '.' :: rest => do
    let (digits, rest) ← readDigits rest
    some ('.' :: digits, rest)
  | s => some ([], s)

/-- Reads the exponent of a number, which may be absent. -/
def readExponent : List Char → Option (List Char × List Char)
  | c :: rest =>
    if c = 'e' ∨ c = 'E' then
      match rest with
      | sign :: behind =>
        if sign = '+' ∨ sign = '-' then do
          let (digits, rest) ← readDigits behind
          some (c :: sign :: digits, rest)
        else do
          let (digits, rest) ← readDigits rest
          some (c :: digits, rest)
      | [] => none
    else some ([], c :: rest)
  | [] => some ([], [])

/-- Reads a number whose sign has been read. -/
def readUnsigned (negative : Bool) (s : List Char) : Option (Json × List Char) := do
  let (whole, rest) ← readDigits s
  if 1 < whole.length ∧ whole.head? = some '0' then none
  else
    let (fraction, rest) ← readFraction rest
    let (exponent, rest) ← readExponent rest
    let size := whole.foldl (fun n c => 10 * n + (c.toNat - '0'.toNat)) 0
    let sign := if negative then ['-'] else []
    if fraction.isEmpty && exponent.isEmpty && !(negative && size == 0) then
      some (.integer (if negative then -(size : Int) else size), rest)
    else some (.decimal (String.ofList (sign ++ whole ++ fraction ++ exponent)), rest)

/-- Reads a number. -/
def readNumber : List Char → Option (Json × List Char)
  | '-' :: rest => readUnsigned true rest
  | s => readUnsigned false s

/-- Reads the rest of a word whose value is known. -/
def readWord (word : List Char) (value : Json) (s : List Char) : Option (Json × List Char) :=
  if word.isPrefixOf s then some (value, s.drop word.length) else none

mutual

/-- Reads a value; every step uses up some of `fuel`. -/
def readValue : (fuel : Nat) → List Char → Option (Json × List Char)
  | 0, _ => none
  | fuel + 1, s =>
    match skipBlank s with
    | '"' :: rest => do
      let (chars, _, rest) ← readString (rest.length + 1) rest [] true
      some (.string (String.ofList chars.reverse), rest)
    | '[' :: rest =>
      match skipBlank rest with
      | ']' :: behind => some (.array [], behind)
      | _ => readItems fuel rest []
    | '\x7b' :: rest =>
      match skipBlank rest with
      | '\x7d' :: behind => some (.object [], behind)
      | _ => readMembers fuel rest [] true
    | 't' :: rest => readWord ['r', 'u', 'e'] (.bool true) rest
    | 'f' :: rest => readWord ['a', 'l', 's', 'e'] (.bool false) rest
    | 'n' :: rest => readWord ['u', 'l', 'l'] .null rest
    | rest => readNumber rest

/-- Reads the items of an array up to its closing bracket; `done` holds those read, reversed. -/
def readItems : (fuel : Nat) → List Char → List Json → Option (Json × List Char)
  | 0, _, _ => none
  | fuel + 1, s, done => do
    let (item, rest) ← readValue fuel s
    match skipBlank rest with
    | ',' :: rest => readItems fuel rest (item :: done)
    | ']' :: rest => some (.array (item :: done).reverse, rest)
    | _ => none

/-- Reads the members of an object up to its closing brace; `done` holds those read, reversed, and
`sound` tells whether their names are texts. -/
def readMembers : (fuel : Nat) → List Char → List (String × Json) → (sound : Bool) →
    Option (Json × List Char)
  | 0, _, _, _ => none
  | fuel + 1, s, done, sound => do
    match skipBlank s with
    | '"' :: rest =>
      let (chars, sound, rest) ← readString (rest.length + 1) rest [] sound
      match skipBlank rest with
      | ':' :: rest =>
        let (value, rest) ← readValue fuel rest
        let done := (String.ofList chars.reverse, value) :: done
        match skipBlank rest with
        | ',' :: rest => readMembers fuel rest done sound
        | '\x7d' :: rest =>
          let members := done.reverse
          some (if sound then .object members else .illNamed members, rest)
        | _ => none
      | _ => none
    | _ => none

end

/-- The value of a document. Every step of reading takes at least one character, but for the step
from a container to its first part. -/
def parse (text : String) : Option Json :=
  let s := text.toList
  match readValue (2 * s.length + 2) s with
  | some (value, rest) => if (skipBlank rest).isEmpty then some value else none
  | none => none

end EntityQuery.Json
