import EntityQuery.CandidateSet
import EntityQuery.Entity
import EntityQuery.FacetSummary

/-!
# Cached results

The kinds of computations that a cache stands in for, and the results that it keeps of them.
-/

namespace EntityQuery

/-- The kinds of computations that can be cached. -/
inductive RecordKind where
  | filter
  | sorted
  | extra
  | entity
  deriving DecidableEq, Repr

namespace RecordKind

/-- The number of a kind. -/
def tag : RecordKind → Nat
  | filter => 0
  | sorted => 1
  | extra => 2
  | entity => 3

/-- The name of a kind. -/
def name : RecordKind → String
  | filter => "filter"
  | sorted => "sorted"
  | extra => "extra"
  | entity => "entity"

/-- The kind of a number. -/
def ofTag? (tag : Nat) : Option RecordKind :=
  [filter, sorted, extra, entity].find? (·.tag == tag)

end RecordKind

/-- A result as the cache keeps it. -/
inductive Payload where
  /-- The result of a filter. -/
  | filter (keys : CandidateSet)
  /-- The merged order of presorted records. -/
  | sorted (order : List Nat)
  /-- A facet summary. -/
  | extra (summary : FacetSummary)
  /-- The body of an entity. -/
  | entity (body : Entity)

/-- The kind of computation that has such results. -/
def Payload.kind : Payload → RecordKind
  | filter _ => .filter
  | sorted _ => .sorted
  | extra _ => .extra
  | entity _ => .entity

end EntityQuery
