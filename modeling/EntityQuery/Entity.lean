import EntityQuery.Json.Record
import EntityQuery.Word

/-!
# Entities

A stored entity has a type, a primary key, a version that grows with every write, and attributes
ordered by name.
-/

namespace EntityQuery

/-- A stored entity. -/
structure Entity where
  entityType : String
  primaryKey : Nat
  /-- Grows with every write of the entity. -/
  version : Nat
  /-- Attributes in ascending order of their names. -/
  attributes : List (String × Json)
  deriving Repr, Inhabited

namespace Entity

/-- Sets an attribute in a list that is ordered by name. -/
def insertAttribute (name : String) (value : Json) :
    List (String × Json) → List (String × Json)
  | [] => [(name, value)]
  | (n, v) :: rest =>
    if name < n then (name, value) :: (n, v) :: rest
    else if name = n then (name, value) :: rest
    else (n, v) :: insertAttribute name value rest

/-- The entity with an attribute set. -/
def withAttribute (e : Entity) (name : String) (value : Json) : Entity :=
  { e with attributes := insertAttribute name value e.attributes }

/-- The value of an attribute. -/
def get? (e : Entity) (name : String) : Option Json := e.attributes.lookup name

/-- The entity cut to its first `n` attributes. -/
def cut (e : Entity) (n : Nat) : Entity := { e with attributes := e.attributes.take n }

/-- The bytes that the entity is taken to occupy in a cache. -/
def footprint (e : Entity) : Nat :=
  48 + e.entityType.utf8ByteSize + (Json.object e.attributes).render.utf8ByteSize

/-- The number of primary keys that there can be. -/
def keyBound : Nat := 4294967296

/-- The entity that a JSON value describes. All four fields have to be there. -/
def ofJson? (json : Json) : Option Entity := do
  match ← json.fields? ["entityType", "primaryKey", "version", "attributes"] with
  | [some entityType, some primaryKey, some version, some attributes] =>
    let members ← attributes.object?
    some
      { entityType := ← entityType.string?
        primaryKey := ← primaryKey.natBelow? keyBound
        version := ← version.natBelow? Word.modulus
        attributes := members.foldl (fun l m => insertAttribute m.1 m.2 l) [] }
  | _ => none

/-- The entity as a JSON value. -/
def toJson (e : Entity) : Json :=
  .object [("entityType", .string e.entityType), ("primaryKey", .integer e.primaryKey),
    ("version", .integer e.version), ("attributes", .object e.attributes)]

end Entity

end EntityQuery
