import EntityQuery.Cache.Workspace
import EntityQuery.Options

/-!
# Bodies from the cache

Bodies of entities are cached like results of computations, with the version of the entity in place
of snapshots. A cached body is handed out for its own version only, and it may have to be completed
for a larger request; the cached body stays as it is. Where there is no body, the storage is asked,
and its answer is reported.
-/

namespace EntityQuery

/-- Where a body comes from. -/
inductive BodySource where
  /-- The cache has it. -/
  | cached (body : Entity)
  /-- The storage has it, and somebody may want to be told. -/
  | storage (observer : Option Observer)

namespace BodySource

/-- Finds out where the body of an entity comes from. -/
def find (scope : Scope) (primaryKey version : Nat) : Work BodySource := do
  match (← get).supervisor.table with
  | none => return storage none
  | some table =>
    match ← Workspace.lookup table (bodyKey scope primaryKey) .entity (.word version) with
    | .hit (.entity body) => return cached body
    | .record entry => return storage (some (.recording entry))
    | .adept entry => return storage (some (.adept entry))
    | .hit _ | .stale => return storage none

/-- Without a cache every body comes from the storage, and nobody is told of it. -/
theorem find_disabled {scope : Scope} {primaryKey version : Nat} {w : Workspace}
    (h : w.supervisor.table = none) :
    find scope primaryKey version w = (storage none, w) := by
  show (find scope primaryKey version).run w = (storage none, w)
  simp [find, h]
  rfl

/-- The adept that is held while the body is on its way. -/
def adept? : BodySource → Option EntryId
  | storage (some observer) => observer.adept?
  | _ => none

/-- What the arrival of a body reports. -/
def outcome (body : Entity) : Computed where
  cost := Word.satMul (max body.attributes.length 1) defaultCostPerField
  size := body.footprint
  snapshots := .word body.version
  payload := .entity body

/-- The memory after an observer was told of a body. -/
def report (observer : Option Observer) (body : Option Entity) (m : Memory) : Memory :=
  match body with
  | some body => m.report observer (outcome body)
  | none => m

/-- Gets the body, by fetching it or by completing the cached one. -/
def take {m : Type → Type} [Monad m] [MonadLiftT Work m] (source : BodySource)
    (fetch : m (Option Entity)) (enrich : Entity → m (Option Entity)) : m (Option Entity) := do
  match source with
  | cached body => return some ((← enrich body).getD body)
  | storage observer =>
    let body ← fetch
    liftM (m := Work) (modify fun w => { w with memory := report observer body w.memory })
    return body

end BodySource

end EntityQuery
