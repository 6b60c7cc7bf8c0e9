import EntityQuery.Error

/-!
# Conditions on amounts

An amount predicate is a window of amounts, each of whose two bounds may be open. The bounds are
decimals that are turned into integers at the precision of the index, so that a test is a comparison
of integers.
-/

namespace EntityQuery

/-- A condition on one amount. -/
inductive AmountPredicate where
  /-- Holds of everything and reads nothing. -/
  | all
  /-- Holds of the amounts from `lower` to `upper`, both included. -/
  | range (mode : ValueMode) (lower upper : Option Int) (places : Nat)
  deriving DecidableEq, Repr

namespace AmountPredicate

/-- The integer of a bound that may be absent. -/
def bound (literal : Option String) (places : Nat) : Except Error (Option Int) :=
  match literal with
  | none => .ok none
  | some text =>
    match Decimal.ofText text places with
    | .ok value => .ok (some value)
    | .error e => .error (.decimal e)

/-- The window between two decimals. The lower bound is read first. -/
def between (mode : ValueMode) (lower upper : Option String) (places : Nat) :
    Except Error AmountPredicate :=
  if lower.isNone && upper.isNone then .ok all
  else do
    let low ← bound lower places
    let high ← bound upper places
    match low, high with
    | some l, some h =>
      if h < l then .error (.invertedRange l h places) else .ok (range mode low high places)
    | _, _ => .ok (range mode low high places)

/-- Whether the predicate holds of everything. -/
def isAll : AmountPredicate → Bool
  | all => true
  | range .. => false

/-- The mode of a window. -/
def mode? : AmountPredicate → Option ValueMode
  | all => none
  | range mode _ _ _ => some mode

/-- The precision of a window. -/
def places? : AmountPredicate → Option Nat
  | all => none
  | range _ _ _ places => some places

/-- Whether an amount is accepted. -/
def test : AmountPredicate → Int → Bool
  | all, _ => true
  | range _ lower upper _, value => lower.all (· ≤ value) && upper.all (value ≤ ·)

/-- How many amounts are read to test one. -/
def readsPerTest : AmountPredicate → Nat
  | all => 0
  | range .. => 1

/-- A window accepts exactly the amounts between its bounds, where it has them. -/
theorem test_range {mode : ValueMode} {lower upper : Option Int} {places : Nat} {value : Int} :
    (range mode lower upper places).test value = true
      ↔ (∀ l, lower = some l → l ≤ value) ∧ ∀ u, upper = some u → value ≤ u := by
  cases lower <;> cases upper <;> simp [test]

/-- Whether a price is accepted. A window whose mode reads nothing from prices accepts none. -/
def testPrice : AmountPredicate → PriceRecord → Bool
  | all, _ => true
  | range mode lower upper places, price =>
    (mode.amount price).any (range mode lower upper places).test

/-- The kind of amount predicates in digests. -/
def classTag : Nat := 0x50524943455F5052

/-- What a predicate is made of. -/
def digest : AmountPredicate → Digest
  | all => .tagged classTag []
  | range mode lower upper places =>
    .tagged classTag <|
      .word mode.tag :: Digest.optionalPart lower ++ Digest.optionalPart upper ++ [.word places]

end AmountPredicate

end EntityQuery
