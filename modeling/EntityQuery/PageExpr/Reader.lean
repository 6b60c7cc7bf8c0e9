/-!
# Readers

A reader takes a piece off the front of a text and gives a value for it together with the rest, or
else tells where it met something that it does not accept. Alternatives are tried in order: the
first that succeeds is taken, and if none does, the place that the last one gives is reported.
-/

namespace EntityQuery

/-- Reads a value off the front of a text, or reports the rest at which it could not go on. -/
abbrev Reader (α : Type) : Type := List Char → Except (List Char) (α × List Char)

namespace Reader

/-- The characters that may stand between any two tokens. -/
def isBlank (c : Char) : Bool := c == ' ' || c == '\t' || c == '\r' || c == '\n'

/-- The text from its first character on that is no blank. -/
def skipBlank (s : List Char) : List Char := s.dropWhile isBlank

/-- Skipping blanks makes no text longer. -/
theorem length_skipBlank (s : List Char) : (skipBlank s).length ≤ s.length :=
  (List.dropWhile_suffix _).length_le

variable {α β : Type}

/-- Reads exactly the text `token`, and gives `value` for it. -/
def token (text : List Char) (value : α) : Reader α := fun s =>
  if text.isPrefixOf s then .ok (value, s.drop text.length) else .error s

/-- Reads blanks, then what `item` reads, then blanks. -/
def padded (item : Reader α) : Reader α := fun s =>
  match item (skipBlank s) with
  | .ok (a, rest) => .ok (a, skipBlank rest)
  | .error at_ => .error at_

/-- The first of the alternatives that succeeds, and else the last one. -/
def firstOf (alternatives : List (Reader α)) (last : Reader α) : Reader α := fun s =>
  match alternatives with
  | [] => last s
  | a :: others =>
    match a s with
    | .ok result => .ok result
    | .error _ => firstOf others last s

/-- Where the first alternative succeeds, it is taken. -/
theorem firstOf_of_ok {a last : Reader α} {others : List (Reader α)} {s : List Char}
    {r : α × List Char} (h : a s = .ok r) : firstOf (a :: others) last s = .ok r := by
  simp [firstOf, h]

/-- What `first` reads, then what `second` reads. -/
def both (first : Reader α) (second : Reader β) : Reader (α × β) := fun s =>
  match first s with
  | .error at_ => .error at_
  | .ok (a, rest) =>
    match second rest with
    | .error at_ => .error at_
    | .ok (b, rest) => .ok ((a, b), rest)

/-- The value that `item` reads, sent through a function. -/
def mapped (f : α → β) (item : Reader α) : Reader β := fun s =>
  match item s with
  | .ok (a, rest) => .ok (f a, rest)
  | .error at_ => .error at_

/-- Reads on for as long as `next` succeeds, and joins each value to the one so far. It stops in
front of the first piece that `next` does not accept. -/
def joinLeft (next : Reader β) (join : α → β → α) (soFar : α) (s : List Char) : α × List Char :=
  match next s with
  | .error _ => (soFar, s)
  | .ok (b, rest) =>
    if rest.length < s.length then joinLeft next join (join soFar b) rest else (soFar, s)
termination_by s.length

/-- Operands of one rank joined by its operators, from the left. -/
def leftAssoc (operator : Reader (α → α → α)) (item : Reader α) : Reader α := fun s =>
  match item s with
  | .error at_ => .error at_
  | .ok (first, rest) =>
    .ok (joinLeft (both (padded operator) item) (fun a fb => fb.1 a fb.2) first rest)

end Reader

end EntityQuery
