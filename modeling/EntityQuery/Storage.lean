import EntityQuery.CandidateSet
import EntityQuery.Entity
import EntityQuery.Error
import Std.Data.HashMap

/-!
# Storage of entities

The bodies of entities come from a storage, of which a query asks three things: the version of an
entity, its body with the first few attributes, and a body completed for a larger request. A storage
has a state, since it may count what it is asked for, and it may fail.

`EntityStore` is a storage that keeps its entities in memory. It can be told to fail, or to have
lost entities that it still knows the versions of.
-/

namespace EntityQuery

/-- An answer of a storage with state `σ`. -/
abbrev Stored (σ α : Type) : Type := ExceptT Error (StateM σ) α

/-- A storage of entities with state `σ`. -/
structure Storage (σ : Type) where
  /-- The version of an entity of some type, unless there is no such entity. -/
  version : σ → String → Nat → Option Nat
  /-- The body of an entity with a number of attributes. -/
  fetch : String → Nat → Nat → Stored σ (Option Entity)
  /-- A body completed to a number of attributes, unless it has them already. -/
  enrich : Entity → Nat → Stored σ (Option Entity)

/-- A storage in memory. -/
structure EntityStore where
  entities : Std.HashMap Nat Entity := ∅
  /-- The keys whose bodies cannot be read. -/
  unreadable : CandidateSet := ∅
  /-- The keys whose bodies cannot be completed. -/
  unenrichable : CandidateSet := ∅
  /-- The keys whose bodies are gone. -/
  vanished : CandidateSet := ∅
  /-- The bodies that were asked for. -/
  fetches : Nat := 0
  /-- The completions that were tried. -/
  enrichments : Nat := 0

namespace EntityStore

/-- The entity with a key. -/
def find? (s : EntityStore) (primaryKey : Nat) : Option Entity := s.entities[primaryKey]?

/-- The storage without an entity. -/
def remove (s : EntityStore) (primaryKey : Nat) : EntityStore :=
  { s with entities := s.entities.erase primaryKey }

/-- The storage with an entity, in place of the one with the same key. -/
def put (s : EntityStore) (e : Entity) : EntityStore :=
  { s with entities := s.entities.insert e.primaryKey e }

/-- The storage with some entities put, one after the other. -/
def putAll (s : EntityStore) (entities : List Entity) : EntityStore := entities.foldl put s

/-- The number of entities. -/
def size (s : EntityStore) : Nat := s.entities.size

/-- The version of an entity of some type. -/
def version (s : EntityStore) (entityType : String) (primaryKey : Nat) : Option Nat := do
  let e ← s.find? primaryKey
  if e.entityType = entityType then some e.version else none

/-- The body of an entity with some attributes. -/
def fetch (primaryKey attributes : Nat) : Stored EntityStore (Option Entity) := do
  modify fun s => { s with fetches := s.fetches + 1 }
  let s ← get
  if s.unreadable.contains primaryKey then throw (.fetch s!"cannot read {primaryKey}")
  else if s.vanished.contains primaryKey then return none
  else return (s.find? primaryKey).map (·.cut attributes)

/-- The body of the stored entity with more attributes. -/
def enrich (body : Entity) (attributes : Nat) : Stored EntityStore (Option Entity) := do
  if attributes ≤ body.attributes.length then return none
  modify fun s => { s with enrichments := s.enrichments + 1 }
  let s ← get
  if s.unenrichable.contains body.primaryKey then
    throw (.fetch s!"cannot enrich {body.primaryKey}")
  else return (s.find? body.primaryKey).map (·.cut attributes)

/-- The storage as a query sees it. -/
def storage : Storage EntityStore where
  version := version
  fetch := fun _ => fetch
  enrich := enrich

/-- The storage without the ability to complete bodies. -/
def plainStorage : Storage EntityStore where
  version := version
  fetch := fun _ => fetch
  enrich := fun _ _ => return none

end EntityStore

end EntityQuery
