import EntityQuery.Formula.Build

/-!
# Computing formulas

The result of a formula is a lazy value of its own. Computing a formula therefore only has to tell
the memory what is computed now, and the observers what came out. Each node is computed at most once
and its parts from left to right before it; a node that has been computed is not entered again, so
the observers in it hear of the first computation only.
-/

namespace EntityQuery

namespace Formula

/-- What an observed computation reports. -/
def outcome (profile : Profile) (inner : Formula) (savedCost : Nat) : Computed where
  cost := savedCost
  size := inner.result.footprint
  snapshots := .unordered profile.snapshots
  payload := .filter inner.result

mutual

/-- The memory after a formula was computed. -/
def visit : Formula → Memory → Memory
  | empty p, m | constant p _, m | index p _, m | cached p _, m =>
    if m.isComputed p.id then m else m.markComputed p.id
  | and p children, m | or p children, m =>
    if m.isComputed p.id then m else (visitAll children m).markComputed p.id
  | not p subtracted superset, m =>
    if m.isComputed p.id then m else (visit superset (visit subtracted m)).markComputed p.id
  | price p source _ _, m =>
    if m.isComputed p.id then m else (visit source m).markComputed p.id
  | observed p inner observer savedCost, m =>
    if m.isComputed p.id then m
    else
      let m := (visit inner m).report (some observer) (outcome p inner savedCost)
      m.markComputed p.id

/-- The memory after some formulas were computed, from left to right. -/
def visitAll : List Formula → Memory → Memory
  | [], m => m
  | f :: rest, m => visitAll rest (visit f m)

end

/-- Computes a formula. -/
def compute (f : Formula) : Run CandidateSet := do
  modify (visit f)
  return f.result

/-- The result does not depend on what has been computed before. -/
theorem compute_fst (f : Formula) (m : Memory) : (f.compute m).1 = f.result := rfl

/-- The formula as a result: itself where it is one already, and else a stand-in for its result,
which is computed now. -/
def toCachedForm (f : Formula) : Run Formula := do
  if f.isMaterialized then return f
  else surrogate f (← f.compute)

end Formula

end EntityQuery
