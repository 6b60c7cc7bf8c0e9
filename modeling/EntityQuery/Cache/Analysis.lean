import EntityQuery.Cache.Workspace
import EntityQuery.FacetCount
import EntityQuery.Sort.Merge

/-!
# Analysing computations

Before a computation is run, the cache is consulted. Where it has the result, the result takes the
place of the computation. Where it follows the computation, or waits for its result, the computation
is observed. A formula is looked up from the root down: nothing below a result is looked up, and all
parts of what is to be computed are.
-/

namespace EntityQuery

namespace Workspace

/-- What takes the place of a formula, where `live` gives the formula over its analysed parts. -/
def substitute (scope : Scope) (f : Formula) (live : Work Formula) : Work Formula := do
  match ← consult scope .filter f.digest f.snapshotsDigest f.cost with
  | some (.hit (.filter keys)) => f.surrogate keys
  | some (.record entry) => Formula.observe (← live) (.recording entry) f.cost
  | some (.adept entry) => Formula.observe (← live) (.adept entry) f.cost
  | _ => live

mutual

/-- A formula with its computations substituted. -/
def analyseNode (scope : Scope) : Formula → Work Formula
  | .and p children => substitute scope (.and p children) do
    (Formula.and p children).withChildren (← analyseNodes scope children)
  | .or p children => substitute scope (.or p children) do
    (Formula.or p children).withChildren (← analyseNodes scope children)
  | .not p subtracted superset => substitute scope (.not p subtracted superset) do
    (Formula.not p subtracted superset).withChildren
      [← analyseNode scope subtracted, ← analyseNode scope superset]
  | .price p source prices predicate => substitute scope (.price p source prices predicate) do
    (Formula.price p source prices predicate).withChildren [← analyseNode scope source]
  | .observed p inner observer savedCost => do
    (Formula.observed p inner observer savedCost).withChildren [← analyseNode scope inner]
  | .empty p => return .empty p
  | .constant p keys => return .constant p keys
  | .index p snapshot => return .index p snapshot
  | .cached p keys => return .cached p keys

/-- Formulas with their computations substituted, from left to right. -/
def analyseNodes (scope : Scope) : List Formula → Work (List Formula)
  | [] => return []
  | f :: rest => return (← analyseNode scope f) :: (← analyseNodes scope rest)

end

/-- Analyses a formula. -/
def analyse (scope : Scope) (f : Formula) : Work Formula := do
  if (← get).supervisor.isEnabled then analyseNode scope f else return f

/-- Without a cache a formula stays what it is. -/
theorem analyse_disabled {scope : Scope} {f : Formula} {w : Workspace}
    (h : w.supervisor.isEnabled = false) : analyse scope f w = (f, w) := by
  show (analyse scope f).run w = (f, w)
  simp [analyse, h]
  rfl

/-- With a cache, its parts are analysed and then it is itself. -/
theorem analyse_enabled {scope : Scope} {f : Formula} {w : Workspace}
    (h : w.supervisor.isEnabled = true) : analyse scope f w = analyseNode scope f w := by
  show (analyse scope f).run w = (analyseNode scope f).run w
  simp [analyse, h]

/-- Analyses a count of facets. -/
def analyseFacets (scope : Scope) (c : FacetCount) : Work FacetCount := do
  match ← consult scope .extra c.digest c.snapshotsDigest c.cost with
  | some (.hit (.extra summary)) => c.replaying summary
  | some (.record entry) => c.observedBy (.recording entry)
  | some (.adept entry) => c.observedBy (.adept entry)
  | _ => return c

/-- A count of facets that is not looked up stays what it is. -/
theorem analyseFacets_of_consult {scope : Scope} {c : FacetCount} {w : Workspace}
    (h : consult scope .extra c.digest c.snapshotsDigest c.cost w = (none, w)) :
    analyseFacets scope c w = (c, w) := by
  show (analyseFacets scope c).run w = (c, w)
  have skipped : (consult scope .extra c.digest c.snapshotsDigest c.cost).run w = (none, w) := h
  simp [analyseFacets, skipped]
  rfl

/-- Analyses a merged order. -/
def analyseSorter (scope : Scope) (r : MergedRecords) : Work MergedRecords := do
  match ← consult scope .sorted r.digest r.snapshotsDigest r.cost with
  | some (.hit (.sorted order)) => r.replaying order
  | some (.record entry) => r.observedBy (.recording entry)
  | some (.adept entry) => r.observedBy (.adept entry)
  | _ => return r

/-- A merged order that is not looked up stays what it is. -/
theorem analyseSorter_of_consult {scope : Scope} {r : MergedRecords} {w : Workspace}
    (h : consult scope .sorted r.digest r.snapshotsDigest r.cost w = (none, w)) :
    analyseSorter scope r w = (r, w) := by
  show (analyseSorter scope r).run w = (r, w)
  have skipped : (consult scope .sorted r.digest r.snapshotsDigest r.cost).run w = (none, w) := h
  simp [analyseSorter, skipped]
  rfl

end Workspace

end EntityQuery
