import EntityQuery.Error
import EntityQuery.Formula.Compute
import EntityQuery.Sort.Merge
import EntityQuery.Sort.Window

/-!
# Chains of sorters

An ordering is a chain of stages, each with a sorter and the name of what it orders by. A stage
orders the keys that it knows something of and leaves the others to the stages behind it. Behind the
last stage the keys that are left are ordered ascending, so a chain orders every key.

A sorter can order entities by entities that they reference. These have a query of their own, with
an ordering of its own, and they have to be ordered before the chain is used.
-/

namespace EntityQuery

mutual

/-- What a stage orders by. -/
inductive Sorter where
  /-- The order that the query lists. -/
  | exact (order : List Nat)
  /-- Ascending keys. -/
  | primaryKey
  /-- Descending keys. -/
  | reversedPrimaryKey
  /-- A merged order of index partitions. -/
  | preSorted (records : MergedRecords)
  /-- Ascending external keys, for pairs of an internal key and an external one. -/
  | external (pairs : List (Nat × Nat))
  /-- The order of referenced entities. -/
  | referenced (comparator : Comparator)

/-- One ordering constraint of a query. -/
structure SortStage where
  /-- What the stage orders by, in the words of the query. -/
  scope : String
  sorter : Sorter

/-- Orders entities by entities that they reference. -/
structure Comparator where
  id : ComparatorId
  /-- The type of the referenced entities. -/
  entityType : String
  /-- The referenced entities that are of interest. -/
  filter : Formula
  /-- How the referenced entities are ordered. -/
  ordering : List SortStage
  references : References

end

/-- The ordering constraints of a query, the most significant one first. -/
abbrev SorterChain : Type := List SortStage

namespace Comparator

/-- Whether the comparator can be used. -/
def isInitialized (c : Comparator) (m : Memory) : Bool := m.placements.contains c.id

/-- The places of the comparator. -/
def placement (c : Comparator) (m : Memory) : Except Error Placement :=
  match m.placements[c.id]? with
  | some p => .ok p
  | none => .error (.comparatorUnready c.entityType)

/-- Whether the comparator is ready for a set of entities. Being ready for another set is an
error. -/
def isReadyFor (c : Comparator) (m : Memory) (input : CandidateSet) : Except Error Bool :=
  match m.placements[c.id]? with
  | none => .ok false
  | some p => if p.input = input then .ok true else .error (.comparatorReused c.entityType)

/-- The memory after the comparator was initialized with an order of the referenced entities. -/
def place (c : Comparator) (order : List Nat) (input : CandidateSet) (m : Memory) : Memory :=
  { m with placements := m.placements.insert c.id (.ofOrder c.references order input) }

/-- Initializes the comparator with a given order of the referenced entities. -/
def initializeWith (c : Comparator) (order : List Nat) (input : CandidateSet) :
    ExceptT Error Run Unit := do
  unless ← c.isReadyFor (← get) input do modify (c.place order input)

end Comparator

namespace Sorter

/-- The pairs by internal key, with the least external key for each of them. -/
def ofPairs (pairs : List (Nat × Nat)) : Sorter :=
  external ((pairs.mergeSort pairNoLater).foldr (fun p rest =>
    p :: match rest with
      | q :: tail => if q.1 = p.1 then tail else rest
      | [] => []) [])

/-- The internal keys of a set that have an external key, by external key and then by internal
key. -/
def byExternal (pairs : List (Nat × Nat)) (keys : CandidateSet) : List Nat :=
  let table := keys.table
  byRank (pairs.filter fun p => table.contains p.1)

/-- Orders what the sorter can order and slices it into the window. -/
def slice (s : Sorter) (c : SortContext) (out : List Nat) :
    ExceptT Error Run SortContext.Progress := do
  match s with
  | primaryKey => return c.sliceAll c.keys.keys out
  | reversedPrimaryKey => return c.sliceAll c.keys.keys.reverse out
  | exact order => return c.slicePart (c.keys.restrict order) out
  | preSorted records =>
    let order ← records.compute
    return c.slicePart (c.keys.restrict order) out
  | external pairs => return c.slicePart (byExternal pairs c.keys) out
  | referenced comparator =>
    let placement ← comparator.placement (← get)
    return c.slicePart (placement.resolve c.keys) out

end Sorter

namespace SorterChain

/-- The first scope that occurs again, if there is one. -/
def repeatedScope (seen : List String) : List SortStage → Option String
  | [] => none
  | s :: rest =>
    if seen.contains s.scope then some s.scope else repeatedScope (s.scope :: seen) rest

/-- Whether the stages can be used as a chain: no scope may occur twice. -/
def check (stages : List SortStage) : Except Error SorterChain :=
  match repeatedScope [] stages with
  | none => .ok stages
  | some scope => .error (.duplicateOrdering scope)

/-- No scope occurs again where all of them differ from each other and from those before. -/
theorem repeatedScope_eq_none {seen : List String} {stages : List SortStage} :
    repeatedScope seen stages = none
      ↔ (stages.map (·.scope)).Nodup ∧ ∀ s ∈ stages, s.scope ∉ seen := by
  induction stages generalizing seen with
  | nil => simp [repeatedScope]
  | cons s rest ih =>
    simp only [repeatedScope, List.contains_iff_mem]
    split
    · simp_all
    · rw [ih]
      simp only [List.map_cons, List.nodup_cons, List.mem_map, List.mem_cons]
      grind

/-- A chain may be used exactly when its scopes differ. -/
theorem check_eq_ok_iff {stages : List SortStage} :
    (∃ chain, check stages = .ok chain) ↔ (stages.map (·.scope)).Nodup := by
  have h : repeatedScope [] stages = none ↔ _ := repeatedScope_eq_none
  unfold check
  cases hr : repeatedScope [] stages <;> simp_all

/-- Initializes the comparators of the chain with a given order of the referenced entities. -/
def initializeWith (chain : SorterChain) (order : List Nat) (input : CandidateSet) :
    ExceptT Error Run Unit :=
  chain.forM fun stage =>
    match stage.sorter with
    | .referenced comparator => comparator.initializeWith order input
    | _ => pure ()

/-- The chain with its merged orders exchanged. -/
def mapPreSorted {m : Type → Type} [Monad m] (chain : SorterChain)
    (exchange : MergedRecords → m MergedRecords) : m SorterChain :=
  chain.mapM fun stage => do
    match stage.sorter with
    | .preSorted records => return { stage with sorter := .preSorted (← exchange records) }
    | _ => return stage

/-- Runs the sorters one after the other for as long as keys are left and wanted. -/
def run : List Sorter → SortContext.Progress → ExceptT Error Run SortContext.Progress
  | [], p => return p
  | sorter :: rest, p => do
    if p.context.keys.isEmpty || p.context.isFilled then return p
    let q ← sorter.slice p.context p.out
    run rest { q with skipped := p.skipped ++ q.skipped }

/-- The sorters of the chain, with the one that orders what is left. -/
def sorters (chain : SorterChain) : List Sorter := chain.map (·.sorter) ++ [.primaryKey]

/-- The keys of a set at the positions from `start` up to but not including `stop` in the order of
the chain, and the keys before them. -/
def sort (chain : SorterChain) (keys : CandidateSet) (start stop : Nat) :
    ExceptT Error Run (List Nat × List Nat) := do
  let p ← run (sorters chain)
    { context := .ofWindow keys start stop
      out := List.replicate (min (stop - start) keys.size) 0
      skipped := [] }
  return (p.out.take p.context.peak, p.skipped)

/-- When no more keys are wanted, no stage is run. -/
theorem run_of_filled {sorters : List Sorter} {p : SortContext.Progress}
    (h : p.context.isFilled = true) : run sorters p = pure p := by
  cases sorters <;> simp [run, h]

/-- For an empty window no stage is run. -/
theorem sort_of_filled {chain : SorterChain} {keys : CandidateSet} {start stop : Nat}
    (h : stop ≤ start) : sort chain keys start stop = pure ([], []) := by
  unfold sort
  rw [run_of_filled]
  · simp [SortContext.ofWindow]
  · simp [SortContext.ofWindow, SortContext.isFilled, Nat.max_eq_right h]

end SorterChain

end EntityQuery
