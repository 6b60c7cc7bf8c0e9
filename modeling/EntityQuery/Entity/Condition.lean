import EntityQuery.Entity

/-!
# Conditions on bodies

What the body of an entity has to be like for a query that reads bodies instead of indexes.
-/

namespace EntityQuery

/-- A condition on the body of an entity. -/
inductive BodyCondition where
  /-- Holds of every body. -/
  | always
  /-- Holds of no body. -/
  | never
  /-- The primary key leaves a remainder. -/
  | residue (modulus remainder : Nat)
  /-- An attribute is there. -/
  | has (name : String)
  /-- An attribute is written like a value. -/
  | equals (name : String) (value : Json)
  deriving Repr

namespace BodyCondition

/-- Whether a body meets a condition. -/
def test : BodyCondition → Entity → Bool
  | always, _ => true
  | never, _ => false
  | residue modulus remainder, e => e.primaryKey % modulus == remainder
  | has name, e => (e.get? name).isSome
  | equals name value, e => (e.get? name).any (·.render == value.render)

end BodyCondition

end EntityQuery
