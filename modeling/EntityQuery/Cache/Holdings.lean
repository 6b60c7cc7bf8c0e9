import EntityQuery.FacetCount
import EntityQuery.Sort.Chain

/-!
# Held adepts

A sweep discards an idle adept only when nobody but the cache holds it. Adepts are held by the
observed computations that are still in use: by formulas, by counts of facets, by merged orders, and
by whatever is made of them. This module collects the adepts that some objects hold. Objects that
are shared are entered once.
-/

namespace EntityQuery

/-- The adepts that are held by the objects seen so far. -/
structure Holdings where
  /-- The formulas and the comparators that were entered. -/
  seen : Std.HashSet Nat := ∅
  adepts : Std.HashSet EntryId := ∅

namespace Holdings

/-- Whether an adept is held. -/
def contains (h : Holdings) (entry : EntryId) : Bool := h.adepts.contains entry

/-- Holds the adept of an observer. Records are not held for the sake of a sweep. -/
def addObserver (h : Holdings) (observer : Option Observer) : Holdings :=
  match observer.bind Observer.adept? with
  | some entry => { h with adepts := h.adepts.insert entry }
  | none => h

mutual

/-- Holds the adepts in a formula. -/
def addFormula : Formula → Holdings → Holdings
  | .empty _, h | .constant _ _, h | .index _ _, h | .cached _ _, h => h
  | .and p children, h | .or p children, h =>
    if h.seen.contains p.id then h
    else addFormulas children { h with seen := h.seen.insert p.id }
  | .not p subtracted superset, h =>
    if h.seen.contains p.id then h
    else addFormula superset (addFormula subtracted { h with seen := h.seen.insert p.id })
  | .price p source _ _, h =>
    if h.seen.contains p.id then h
    else addFormula source { h with seen := h.seen.insert p.id }
  | .observed p inner observer _, h =>
    if h.seen.contains p.id then h
    else addObserver (addFormula inner { h with seen := h.seen.insert p.id }) (some observer)

/-- Holds the adepts in some formulas. -/
def addFormulas : List Formula → Holdings → Holdings
  | [], h => h
  | f :: rest, h => addFormulas rest (addFormula f h)

end

/-- Holds the adepts in a count of facets. -/
def addFacets (c : FacetCount) (h : Holdings) : Holdings :=
  (addFormula c.filter h).addObserver c.observer

/-- Holds the adept of a merged order. -/
def addRecords (r : MergedRecords) (h : Holdings) : Holdings := h.addObserver r.observer

mutual

/-- Holds the adepts in a sorter. -/
def addSorter : Sorter → Holdings → Holdings
  | .exact _, h | .primaryKey, h | .reversedPrimaryKey, h | .external _, h => h
  | .preSorted records, h => addRecords records h
  | .referenced comparator, h => addComparator comparator h

/-- Holds the adepts in a comparator. -/
def addComparator : Comparator → Holdings → Holdings
  | ⟨id, _, filter, ordering, _⟩, h =>
    if h.seen.contains id then h
    else addChain ordering (addFormula filter { h with seen := h.seen.insert id })

/-- Holds the adepts in a stage. -/
def addStage : SortStage → Holdings → Holdings
  | ⟨_, sorter⟩, h => addSorter sorter h

/-- Holds the adepts in a chain. -/
def addChain : List SortStage → Holdings → Holdings
  | [], h => h
  | stage :: rest, h => addChain rest (addStage stage h)

end

end Holdings

end EntityQuery
