import EntityQuery.Cache.Bodies
import EntityQuery.Engine.Query
import EntityQuery.Sort.Nested
import EntityQuery.Storage

/-!
# Evaluating queries

A query is answered in four steps. The filter is planned and computed, or the entities that the
query is limited to are fetched and filtered by their bodies. Facets are counted over the filter.
The matches are ordered, and a page is cut out of the order. The bodies of the page are fetched,
unless they have been.

An early sweep that the cache asks for on the way is left to the caller.
-/

namespace EntityQuery

/-- An engine that answers queries. -/
structure QueryEngine where
  options : EngineOptions
  supervisor : Supervisor
  slicers : SlicerRegistry := {}

namespace QueryEngine

/-- The engine with some options. -/
def ofOptions (options : EngineOptions) : Except Error QueryEngine := do
  return { options, supervisor := ← Supervisor.ofOptions options.cache }

end QueryEngine

/-- An engine at work, with a memory and a storage in state `σ`. -/
structure EngineState (σ : Type) where
  engine : QueryEngine
  memory : Memory
  store : σ

/-- A step of answering a query. -/
abbrev Evaluation (σ : Type) : Type → Type := ExceptT Error (StateM (EngineState σ))

/-- What consults a cache uses that of the engine. -/
instance {σ : Type} : MonadLift Work (StateM (EngineState σ)) where
  monadLift x := fun s =>
    let (a, w) := x ⟨s.engine.supervisor, s.memory⟩
    (a, { s with engine := { s.engine with supervisor := w.supervisor }, memory := w.memory })

namespace Evaluation

variable {σ : Type}

/-- A computation that consults the cache and may fail, as a step. -/
def ofAttempt {α : Type} (x : Attempt α) : Evaluation σ α := ExceptT.mk (liftM x.run)

/-- A request to the storage, as a step. -/
def ofStored {α : Type} (x : Stored σ α) : Evaluation σ α := fun s =>
  let (answer, store) := x.run s.store
  (answer, { s with store })

/-- The body of an entity, from the cache or from the storage, if there is such an entity. -/
def body (storage : Storage σ) (scope : Scope) (requirements primaryKey : Nat) :
    Evaluation σ (Option Entity) := do
  match storage.version (← get).store scope.entityType primaryKey with
  | none => return none
  | some version =>
    let source ← BodySource.find scope primaryKey version
    source.take (ofStored (storage.fetch scope.entityType primaryKey requirements))
      fun cached => ofStored (storage.enrich cached requirements)

/-- The bodies of the entities that a query is limited to and that its predicate accepts. -/
def prefetch (storage : Storage σ) (scope : Scope) (requirements : Nat) (p : Prefetch) :
    Evaluation σ (List (Nat × Entity)) :=
  p.keys.keys.filterMapM fun primaryKey => do
    match ← body storage scope requirements primaryKey with
    | some e => return if p.predicate e then some (primaryKey, e) else none
    | none => return none

/-- The window of a page over some number of matches. -/
def window (page : PageRequest) (total : Nat) : Evaluation σ Window := do
  let s ← get
  let (answer, slicers) := s.engine.slicers.window page.gaps page.number page.size total
  set { s with engine := { s.engine with slicers } }
  ofExcept answer

/-- The body of an entity, which may be among those that were fetched already. -/
def knownBody (storage : Storage σ) (scope : Scope) (requirements : Nat)
    (known : Std.HashMap Nat Entity) (primaryKey : Nat) : Evaluation σ (Option Entity) :=
  match known[primaryKey]? with
  | some e => return some e
  | none => body storage scope requirements primaryKey

/-- The bodies of the keys that have one. A body that was fetched already is taken out for its key,
so it is there for one key only. -/
def bodies (storage : Storage σ) (scope : Scope) (requirements : Nat) :
    Std.HashMap Nat Entity → List Nat → Evaluation σ (List Entity)
  | _, [] => return []
  | known, primaryKey :: rest => do
    let found ← knownBody storage scope requirements known primaryKey
    let entities ← bodies storage scope requirements (known.erase primaryKey) rest
    return found.toList ++ entities

/-- How the matches of a query were found. -/
structure Matches where
  /-- The filter that they pass. -/
  filter : Formula
  keys : CandidateSet
  /-- The bodies that were fetched on the way. -/
  known : List (Nat × Entity)

/-- The decision whether to fetch entities first, where a query allows for it. -/
def decision (options : EngineOptions) (request : QueryRequest) : Option PrefetchDecision :=
  request.prefetch.map fun p =>
    .decide options.policy request.filter.cost p.keys.size request.requirements
      request.preferPrefetch options.costPerField

/-- The matches of a query by its filter. -/
def filtered (policy : PlanningPolicy) (scope : Scope) (filter : Formula) :
    Evaluation σ Matches := do
  let planned ← policy.plan scope filter
  return { filter := planned, keys := ← planned.compute, known := [] }

/-- The matches of a query by bodies. -/
def fetched (storage : Storage σ) (scope : Scope) (requirements : Nat) (p : Prefetch) :
    Evaluation σ Matches := do
  let known ← prefetch storage scope requirements p
  let keys := CandidateSet.ofKeys (known.map (·.1))
  return { filter := ← Formula.ofKeys keys, keys, known }

end Evaluation

namespace QueryRequest

open Evaluation

variable {σ : Type}

/-- How the matches of a query are found: by bodies where that is decided and the query is limited
to some entities, and else by the filter. -/
def found (request : QueryRequest) (storage : Storage σ) (catalog : String)
    (options : EngineOptions) (prefetched : Bool) : Evaluation σ Matches :=
  let scope : Scope := ⟨catalog, request.entityType⟩
  match request.prefetch, prefetched with
  | some p, true => fetched storage scope request.requirements p
  | _, _ => filtered options.policy scope request.filter

/-- What is done once the matches of a query are known. -/
def answered (request : QueryRequest) (storage : Storage σ) (catalog : String)
    (options : EngineOptions) (prefetched : Bool) (found : Matches) :
    Evaluation σ QueryResponse := do
  let scope : Scope := ⟨catalog, request.entityType⟩
  let facets ← request.facets.mapM fun buckets => do
    (← options.policy.planFacets scope (← FacetCount.ofFilter found.filter buckets)).compute
  let ordering ← SorterChain.mapPreSorted (m := Evaluation σ) request.ordering fun records =>
    options.policy.planSorter scope records
  ofAttempt (initializeChain options.policy catalog ordering found.keys)
  let page ← window request.page found.keys.size
  let (keys, _) ← ofAttempt <| .ofRun <|
    ordering.sort found.keys page.offset (Word.satAdd page.offset page.limit)
  let entities ← if request.requirements = 0 then pure []
    else bodies storage scope request.requirements (.ofList found.known) keys
  return { keys, entities, page, facets, prefetched }

/-- Answers a query. -/
def evaluate (request : QueryRequest) (storage : Storage σ) (catalog : String) :
    Evaluation σ QueryResponse := do
  let options := (← get).engine.options
  let prefetched := (decision options request).any (·.prefetch)
  request.answered storage catalog options prefetched
    (← request.found storage catalog options prefetched)

end QueryRequest

end EntityQuery
