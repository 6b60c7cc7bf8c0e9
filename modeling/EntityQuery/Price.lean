/-!
# Prices

A price record belongs to an entity and carries two amounts at the precision of its index. A value
mode names the amount that a condition reads.
-/

namespace EntityQuery

/-- One price of an entity. -/
structure PriceRecord where
  entity : Nat
  /-- Tells the prices of one entity apart. -/
  inner : Nat
  withoutTax : Int
  withTax : Int
  deriving DecidableEq, Repr

/-- Which number a condition on amounts reads. -/
inductive ValueMode where
  | withTax
  | withoutTax
  /-- The indexed value itself, which prices do not have. -/
  | raw
  deriving DecidableEq, Repr

namespace ValueMode

/-- The number of a mode in digests. -/
def tag : ValueMode → Nat
  | withTax => 1
  | withoutTax => 2
  | raw => 3

/-- The name of a mode in messages. -/
def name : ValueMode → String
  | withTax => "WithTax"
  | withoutTax => "WithoutTax"
  | raw => "Raw"

/-- The amount that a mode reads from a price. -/
def amount : ValueMode → PriceRecord → Option Int
  | withTax, price => some price.withTax
  | withoutTax, price => some price.withoutTax
  | raw, _ => none

end ValueMode

end EntityQuery
