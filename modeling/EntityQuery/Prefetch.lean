import EntityQuery.Options
import EntityQuery.Word

/-!
# Fetching entities first

When a query names the only entities that it can return, these may be fetched first and filtered by
their bodies. Whether that is done depends on the planning policy and on the estimated costs of the
two ways.
-/

namespace EntityQuery

namespace PlanningPolicy

/-- Whether entities may be fetched first at all. -/
def allowsPrefetch : PlanningPolicy → Bool
  | default | prefetchFavouring => true
  | cacheEnforcing => false

/-- The estimated cost of fetching `count` entities with `fields` fields each. A cost of zero is
always accepted and the largest one never is. -/
def prefetchCost (policy : PlanningPolicy) (count fields : Nat) (preferred : Bool)
    (costPerField : Nat) : Nat :=
  match policy with
  | cacheEnforcing => Word.max
  | prefetchFavouring => 0
  | default =>
    if preferred then 0 else Word.satMul (Word.satMul count fields) costPerField

end PlanningPolicy

/-- Whether entities are fetched first, and the two costs that were compared. -/
structure PrefetchDecision where
  prefetch : Bool
  filterCost : Nat
  prefetchCost : Nat
  deriving DecidableEq, Repr, Inhabited

namespace PrefetchDecision

/-- Decides between evaluating a filter of some cost and fetching entities first. -/
def decide (policy : PlanningPolicy) (filterCost count fields : Nat) (preferred : Bool)
    (costPerField : Nat) : PrefetchDecision :=
  let cost := policy.prefetchCost count fields preferred costPerField
  { prefetch := policy.allowsPrefetch && cost != Word.max && Nat.ble cost filterCost
    filterCost
    prefetchCost := cost }

/-- The policy that favours fetching entities first always does so. -/
theorem decide_prefetchFavouring (filterCost count fields : Nat) (preferred : Bool)
    (costPerField : Nat) :
    (decide .prefetchFavouring filterCost count fields preferred costPerField).prefetch = true := by
  simp [decide, PlanningPolicy.allowsPrefetch, PlanningPolicy.prefetchCost, Word.max]

end PrefetchDecision

end EntityQuery
