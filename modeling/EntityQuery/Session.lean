import EntityQuery.Cache.Holdings
import EntityQuery.Engine.Evaluate

/-!
# Sessions

A client builds up filters, orders, caches and engines step by step and refers to what it has built
by name. A session keeps the named objects, with the memory that they share. As long as an object
has a name it is in use, so the adepts in it are held, and a sweep of a cache does not discard them.
-/

namespace EntityQuery

/-- Objects by name. -/
abbrev Named (α : Type) : Type := Std.HashMap String α

/-- The named objects of a client. -/
structure Session where
  memory : Memory := {}
  indexes : Named IndexSnapshot := ∅
  prices : Named PriceIndex := ∅
  formulas : Named Formula := ∅
  facets : Named FacetCount := ∅
  providers : Named RecordProvider := ∅
  merged : Named MergedRecords := ∅
  comparators : Named Comparator := ∅
  chains : Named SorterChain := ∅
  supervisors : Named Supervisor := ∅
  engines : Named QueryEngine := ∅
  stores : Named EntityStore := ∅
  /-- Computations that the client follows itself. -/
  observers : Named Observer := ∅

/-- Names a cache: that of a supervisor, or that of an engine. -/
inductive CacheName where
  | supervisor (name : String)
  | engine (name : String)
  deriving DecidableEq, Repr

namespace Session

/-- The supervisor of a cache. -/
def supervisor? (s : Session) : CacheName → Option Supervisor
  | .supervisor name => s.supervisors[name]?
  | .engine name => s.engines[name]?.map (·.supervisor)

/-- The session with another supervisor for a cache. An engine has to be there already. -/
def setSupervisor (s : Session) (supervisor : Supervisor) : CacheName → Session
  | .supervisor name => { s with supervisors := s.supervisors.insert name supervisor }
  | .engine name =>
    { s with engines := s.engines.modify name fun e => { e with supervisor } }

/-- Works with a cache, if there is one of that name. -/
def work? {α : Type} (s : Session) (cache : CacheName) (x : Work α) : Option (α × Session) :=
  (s.supervisor? cache).map fun supervisor =>
    let (a, w) := x ⟨supervisor, s.memory⟩
    (a, { s.setSupervisor w.supervisor cache with memory := w.memory })

/-- The adepts in the named objects. -/
def holdings (s : Session) : Holdings :=
  let h : Holdings := {}
  let h := s.observers.fold (fun h _ o => h.addObserver (some o)) h
  let h := s.formulas.fold (fun h _ f => h.addFormula f) h
  let h := s.facets.fold (fun h _ c => h.addFacets c) h
  let h := s.merged.fold (fun h _ r => h.addRecords r) h
  let h := s.comparators.fold (fun h _ c => h.addComparator c) h
  s.chains.fold (fun h _ c => h.addChain c) h

/-- Sweeps a cache. -/
def sweep? (s : Session) (cache : CacheName) (kind : SweepKind) :
    Option (Option SweepReport × Session) :=
  s.work? cache (Workspace.sweep kind s.holdings.contains)

/-- Runs the early sweep that a cache was asked for, if there is one. Besides the named objects,
what `more` adds is in use. -/
def settle? (s : Session) (cache : CacheName) (more : Holdings → Holdings) :
    Option (Unit × Session) :=
  let held := Thunk.mk fun _ => more s.holdings
  s.work? cache (Workspace.settle fun entry => held.get.contains entry)

/-- The store of a name. Without a name the store is empty. -/
def store? (s : Session) : Option String → Option EntityStore
  | some name => s.stores[name]?
  | none => some {}

/-- Answers a query with an engine, over a store that has a name or over an empty one. `none` if the
session has no such engine or no such store. -/
def evaluate? (s : Session) (engine : String) (store : Option String)
    (storage : Storage EntityStore) (catalog : String) (request : QueryRequest) :
    Option ((Except Error QueryResponse × EngineState EntityStore) × Session) := do
  let (answer, after) :=
    (request.evaluate storage catalog).run ⟨← s.engines[engine]?, s.memory, ← s.store? store⟩
  return ((answer, after),
    { s with
      memory := after.memory
      engines := s.engines.insert engine after.engine
      stores := store.elim s.stores fun name => s.stores.insert name after.store })

end Session

end EntityQuery
