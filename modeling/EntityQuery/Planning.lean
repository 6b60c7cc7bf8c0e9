import EntityQuery.Cache.Analysis
import EntityQuery.Prefetch

/-!
# Planning policies

A policy decides how computations are routed through the cache: they are analysed with it, they are
all computed into results at once, or they are left alone.
-/

namespace EntityQuery

/-- A formula with all that can be cached computed into its result. -/
def Formula.enforceCachedForm : Formula → Run Formula
  | .and p children => (Formula.and p children).toCachedForm
  | .or p children => (Formula.or p children).toCachedForm
  | .not p subtracted superset => (Formula.not p subtracted superset).toCachedForm
  | .price p source prices predicate => (Formula.price p source prices predicate).toCachedForm
  | .observed p inner observer savedCost => do
    (Formula.observed p inner observer savedCost).withChildren [← inner.enforceCachedForm]
  | .empty p => return .empty p
  | .constant p keys => return .constant p keys
  | .index p snapshot => return .index p snapshot
  | .cached p keys => return .cached p keys

namespace PlanningPolicy

/-- Plans a formula. -/
def plan (policy : PlanningPolicy) (scope : Scope) (f : Formula) : Work Formula :=
  match policy with
  | default => Workspace.analyse scope f
  | cacheEnforcing => f.enforceCachedForm
  | prefetchFavouring => return f

/-- Plans a count of facets. -/
def planFacets (policy : PlanningPolicy) (scope : Scope) (c : FacetCount) : Work FacetCount :=
  match policy with
  | default => Workspace.analyseFacets scope c
  | cacheEnforcing => c.toCachedForm
  | prefetchFavouring => return c

/-- Plans a merged order. -/
def planSorter (policy : PlanningPolicy) (scope : Scope) (r : MergedRecords) : Work MergedRecords :=
  match policy with
  | default => Workspace.analyseSorter scope r
  | cacheEnforcing => r.toCachedForm
  | prefetchFavouring => return r

end PlanningPolicy

end EntityQuery
