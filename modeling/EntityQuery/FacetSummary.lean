/-!
# Facet summaries

A facet summary tells for each facet that was asked for how many of the filtered entities reference
it.
-/

namespace EntityQuery

/-- Facets with their counts, in the order of the facets. -/
structure FacetSummary where
  counts : List (Nat × Nat)
  deriving DecidableEq, Repr, Inhabited

namespace FacetSummary

/-- The count of a facet. -/
def countOf (s : FacetSummary) (facet : Nat) : Option Nat := s.counts.lookup facet

/-- Of several counts for one facet the first is given. -/
theorem countOf_cons (f n facet : Nat) (rest : List (Nat × Nat)) :
    (mk ((f, n) :: rest)).countOf facet
      = if facet = f then some n else (mk rest).countOf facet := by
  simp only [countOf, List.lookup_cons]
  grind

/-- The bytes that the summary is taken to occupy in a cache. -/
def footprint (s : FacetSummary) : Nat := 24 + s.counts.length * 16

end FacetSummary

end EntityQuery
