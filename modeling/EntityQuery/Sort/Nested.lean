import EntityQuery.Planning
import EntityQuery.Sort.Chain

/-!
# Nested queries

Before a chain can order entities by entities that they reference, the referenced entities have to
be filtered and ordered by a query of their own, which may again order by references. A nested query
is planned and computed like any other, and all its matches are ordered.
-/

namespace EntityQuery

/-- A computation that consults a cache and may fail. -/
abbrev Attempt : Type → Type := ExceptT Error Work

/-- What may fail and only uses the memory leaves the cache alone. -/
def Attempt.ofRun {α : Type} (x : ExceptT Error Run α) : Attempt α := ExceptT.mk (liftM x.run)

/-- The order of all matches of a filter, where `prepare` initializes the ordering for them. -/
def nestedOrder (policy : PlanningPolicy) (scope : Scope) (filter : Formula)
    (ordering : SorterChain) (prepare : CandidateSet → Attempt Unit) : Attempt (List Nat) := do
  let keys ← (← policy.plan scope filter).compute
  prepare keys
  return (← .ofRun (ordering.sort keys 0 keys.size)).1

mutual

/-- Initializes a comparator for some entities by running its query. -/
def initializeComparator (policy : PlanningPolicy) (catalog : String) :
    Comparator → CandidateSet → Attempt Unit
  | ⟨id, entityType, filter, ordering, references⟩, input => do
    let comparator : Comparator := ⟨id, entityType, filter, ordering, references⟩
    unless ← comparator.isReadyFor (← get).memory input do
      let order ← nestedOrder policy ⟨catalog, entityType⟩ filter ordering fun keys =>
        initializeChain policy catalog ordering keys
      modify fun w => { w with memory := comparator.place order input w.memory }

/-- Initializes the comparator of a sorter, if it has one. -/
def initializeSorter (policy : PlanningPolicy) (catalog : String) :
    Sorter → CandidateSet → Attempt Unit
  | .referenced comparator, input => initializeComparator policy catalog comparator input
  | .exact _, _ | .primaryKey, _ | .reversedPrimaryKey, _ | .preSorted _, _ | .external _, _ =>
    return

/-- Initializes the comparator of a stage, if it has one. -/
def initializeStage (policy : PlanningPolicy) (catalog : String) :
    SortStage → CandidateSet → Attempt Unit
  | ⟨_, sorter⟩, input => initializeSorter policy catalog sorter input

/-- Initializes the comparators of a chain for some entities. -/
def initializeChain (policy : PlanningPolicy) (catalog : String) :
    List SortStage → CandidateSet → Attempt Unit
  | [], _ => return
  | stage :: rest, input => do
    initializeStage policy catalog stage input
    initializeChain policy catalog rest input

end

/-- A chain without stages needs no nested query. -/
theorem initializeChain_nil (policy : PlanningPolicy) (catalog : String) (input : CandidateSet) :
    initializeChain policy catalog [] input = pure () := by
  simp [initializeChain]

/-- The matches of the query of a comparator, in the order of that query. -/
def Comparator.execute (comparator : Comparator) (policy : PlanningPolicy) (catalog : String) :
    Attempt (List Nat) :=
  nestedOrder policy ⟨catalog, comparator.entityType⟩ comparator.filter comparator.ordering
    (initializeChain policy catalog comparator.ordering)

end EntityQuery
