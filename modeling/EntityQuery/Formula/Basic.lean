import EntityQuery.Index
import EntityQuery.Memory

/-!
# Formulas

A filter is a formula over index snapshots. Each node of a formula carries what is known of it
before anything is computed: the digest of what it is made of, the snapshots that it reads, the cost
of computing it, and a bound on the size of its result. It also carries the result, as a lazy value.

Besides the nodes of a filter there are two that the cache puts in: a result that stands for a
computation, and a computation whose outcome is reported.

Nodes are shared, so a formula may be much smaller than the tree that it unfolds to. Two formulas
are the same object when their identities agree.
-/

namespace EntityQuery

/-- What a node of a formula carries. -/
structure Profile where
  id : NodeId
  /-- What the node is made of, whatever the versions that it reads. -/
  digest : Digest
  /-- The snapshots that the node reads, in ascending order without repetitions. -/
  snapshots : List Digest
  /-- The estimated cost of computing the node. -/
  cost : Nat
  /-- An upper bound of the number of keys in the result. -/
  cardinality : Nat
  result : Thunk CandidateSet

/-- A filter. -/
inductive Formula where
  /-- No key. -/
  | empty (profile : Profile)
  /-- Keys that the query itself lists. -/
  | constant (profile : Profile) (keys : CandidateSet)
  /-- The keys of an index snapshot. -/
  | index (profile : Profile) (snapshot : IndexSnapshot)
  /-- The keys that all parts have. -/
  | and (profile : Profile) (children : List Formula)
  /-- The keys that some part has. -/
  | or (profile : Profile) (children : List Formula)
  /-- The keys of the superset that the subtracted part lacks. -/
  | not (profile : Profile) (subtracted superset : Formula)
  /-- The keys of the source that have an accepted price. -/
  | price (profile : Profile) (source : Formula) (prices : PriceIndex) (predicate : AmountPredicate)
  /-- A result that the cache had for a computation. -/
  | cached (profile : Profile) (keys : CandidateSet)
  /-- A computation whose outcome is reported, with the cost that a cached result saves. -/
  | observed (profile : Profile) (inner : Formula) (observer : Observer) (savedCost : Nat)

namespace Formula

/-- What the node carries. -/
def profile : Formula → Profile
  | empty p | constant p _ | index p _ | and p _ | or p _ | not p _ _ | price p _ _ _
  | cached p _ | observed p _ _ _ => p

/-- The identity of a formula. -/
def id (f : Formula) : NodeId := f.profile.id

/-- What a formula is made of. -/
def digest (f : Formula) : Digest := f.profile.digest

/-- The snapshots that a formula reads. -/
def snapshots (f : Formula) : List Digest := f.profile.snapshots

/-- The estimated cost of a formula. -/
def cost (f : Formula) : Nat := f.profile.cost

/-- An upper bound of the size of the result. -/
def cardinality (f : Formula) : Nat := f.profile.cardinality

/-- The result of a formula. -/
def result (f : Formula) : CandidateSet := f.profile.result.get

/-- What identifies the versions that a formula reads. -/
def snapshotsDigest (f : Formula) : Digest := .unordered f.snapshots

/-- The parts of a formula. -/
def children : Formula → List Formula
  | and _ children | or _ children => children
  | not _ subtracted superset => [subtracted, superset]
  | price _ source _ _ => [source]
  | observed _ inner _ _ => [inner]
  | empty _ | constant _ _ | index _ _ | cached _ _ => []

/-- Whether the cache may stand in for a node. The leaves are results already, and the other two
kinds come from the cache. -/
def isCacheable : Formula → Bool
  | and .. | or .. | not .. | price .. => true
  | empty .. | constant .. | index .. | cached .. | observed .. => false

/-- Whether the node is a result already: keys that are listed, or keys from the cache. -/
def isMaterialized : Formula → Bool
  | empty .. | constant .. | cached .. => true
  | _ => false

/-- Whether the formula has been computed. -/
def isComputed (f : Formula) (m : Memory) : Bool := m.isComputed f.id

end Formula

end EntityQuery
