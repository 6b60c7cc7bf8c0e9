import EntityQuery.FacetCount
import EntityQuery.Slicer.Memo
import EntityQuery.Sort.Chain

/-!
# Queries

What a query asks for and what it gets: a page of the filtered entities in some order, with their
bodies where attributes are asked for, and counts of facets over the filter.
-/

namespace EntityQuery

/-- Entities that a query is limited to, with a predicate on bodies that the filter amounts to. -/
structure Prefetch where
  keys : CandidateSet
  predicate : Entity → Bool

/-- The page that is asked for. -/
structure PageRequest where
  number : Nat := 1
  size : Nat := 20
  /-- The sizes and conditions of the gaps. -/
  gaps : List (Nat × String) := []

/-- A query. -/
structure QueryRequest where
  entityType : String
  filter : Formula
  ordering : SorterChain := []
  page : PageRequest := {}
  facets : Option (List FacetBucket) := none
  prefetch : Option Prefetch := none
  /-- The number of attributes that are asked for. Without any, only keys are given. -/
  requirements : Nat := 0
  preferPrefetch : Bool := false

/-- The answer to a query. -/
structure QueryResponse where
  keys : List Nat
  /-- The bodies of the keys that have one, if attributes were asked for. -/
  entities : List Entity
  page : Window
  facets : Option FacetSummary
  /-- Whether entities were fetched first. -/
  prefetched : Bool

/-- The number of matches. -/
def QueryResponse.totalCount (r : QueryResponse) : Nat := r.page.total

end EntityQuery
