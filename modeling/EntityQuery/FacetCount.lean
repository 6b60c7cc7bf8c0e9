import EntityQuery.Formula.Compute

/-!
# Counting facets

Next to the page of a query its filter can be used to count, for each facet that is asked for, the
filtered entities that reference it. The count of facets is computed at most once, and its outcome
may be reported to the cache.
-/

namespace EntityQuery

/-- The entities that reference a facet. -/
structure FacetBucket where
  facet : Nat
  entities : IndexSnapshot

/-- A count of facets. -/
structure FacetCount where
  id : NodeId
  filter : Formula
  /-- The facets in ascending order. -/
  buckets : List FacetBucket
  /-- What the count is made of, whatever the versions that it reads. -/
  digest : Digest
  /-- What identifies the versions that the count reads. -/
  snapshotsDigest : Digest
  /-- The estimated cost of the count. -/
  cost : Nat
  /-- Who is told of the outcome. -/
  observer : Option Observer
  result : Thunk FacetSummary

namespace FacetCount

/-- The cost of one key that is looked up in one bucket. -/
def costPerLookup : Nat := 8

/-- The facets with the number of their entities among some keys. -/
def summarize (buckets : List FacetBucket) (keys : CandidateSet) : FacetSummary :=
  ⟨buckets.map fun b => (b.facet, (keys.inter b.entities.keys).size)⟩

/-- The count of facets over a filter. Buckets of one facet stay in the given order. -/
def ofFilter (filter : Formula) (buckets : List FacetBucket) : Run FacetCount := do
  let buckets := buckets.mergeSort fun a b => decide (a.facet ≤ b.facet)
  let parts := buckets.map fun b => Digest.ofList [.word b.facet, .word b.entities.id]
  return {
    id := ← Memory.newId
    filter
    buckets
    digest := .tagged 0x20 (filter.digest :: Digest.unorderedPart parts)
    snapshotsDigest := .unordered (filter.snapshots ++ buckets.map (·.entities.digest))
    cost := Word.satAdd filter.cost
      (Word.satMul (Word.satMul filter.cardinality buckets.length) costPerLookup)
    observer := none
    result := Thunk.mk fun _ => summarize buckets filter.result }

/-- The result of a new count is the summary of its buckets over the filter. -/
theorem result_ofFilter (filter : Formula) (buckets : List FacetBucket) (m : Memory) :
    (ofFilter filter buckets m).1.result.get
      = summarize (ofFilter filter buckets m).1.buckets filter.result := rfl

/-- Whether the count has been computed. -/
def isComputed (c : FacetCount) (m : Memory) : Bool := m.isComputed c.id

/-- What the count reports. -/
def outcome (c : FacetCount) : Computed where
  cost := c.cost
  size := c.result.get.footprint
  snapshots := c.snapshotsDigest
  payload := .extra c.result.get

/-- The memory after the count was computed. -/
def visit (c : FacetCount) (m : Memory) : Memory :=
  if c.isComputed m then m
  else ((c.filter.visit m).report c.observer c.outcome).markComputed c.id

/-- Computes the count. -/
def compute (c : FacetCount) : Run FacetSummary := do
  modify c.visit
  return c.result.get

/-- The result does not depend on what has been computed before. -/
theorem compute_fst (c : FacetCount) (m : Memory) : (c.compute m).1 = c.result.get := rfl

/-- The count as one that has been computed already, with a given result. -/
def replaying (c : FacetCount) (summary : FacetSummary) : Run FacetCount := do
  let id ← Memory.newId
  modify (·.markComputed id)
  return { c with id, observer := none, result := Thunk.pure summary }

/-- The count with an observer. It is counted anew over its filter, also where `c` has been computed
or replays a result. -/
def observedBy (c : FacetCount) (observer : Observer) : Run FacetCount := do
  return { c with
    id := ← Memory.newId
    observer := some observer
    result := Thunk.mk fun _ => summarize c.buckets c.filter.result }

/-- The count as a result: itself where it is one already, and else one that replays the result,
which is computed now. -/
def toCachedForm (c : FacetCount) : Run FacetCount := do
  if c.isComputed (← get) && c.observer.isNone then return c
  else c.replaying (← c.compute)

end FacetCount

end EntityQuery
