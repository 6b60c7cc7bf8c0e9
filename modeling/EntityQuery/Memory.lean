import EntityQuery.Cache.Entry
import EntityQuery.Sort.Placement
import Std.Data.HashSet

/-!
# The memory of computations

Filters, facet computers and merged orders are computed at most once. Their results are lazy values
that they carry with them; what the memory keeps is which of them have been computed, because a
first computation is reported to the cache and a later one is not. It also keeps the places that
comparators were initialized with, the entries of all caches, and the numbers that are still unused.
-/

namespace EntityQuery

/-- Identifies an object whose result is computed at most once. -/
abbrev NodeId : Type := Nat

/-- Identifies a comparator. -/
abbrev ComparatorId : Type := Nat

/-- What has been computed so far. -/
structure Memory where
  /-- The least number that identifies nothing yet. -/
  fresh : Nat := 0
  /-- The objects whose results have been computed. -/
  computed : Std.HashSet NodeId := ∅
  /-- The places of the comparators that were initialized. -/
  placements : Std.HashMap ComparatorId Placement := ∅
  /-- The entries of all caches. -/
  entries : Entries := #[]

/-- A computation that uses the memory. -/
abbrev Run : Type → Type := StateM Memory

namespace Memory

/-- A number that identifies nothing yet. -/
def newId : Run Nat := fun m => (m.fresh, { m with fresh := m.fresh + 1 })

/-- Whether an object has been computed. -/
def isComputed (m : Memory) (id : NodeId) : Bool := m.computed.contains id

/-- The memory after an object was computed. -/
def markComputed (m : Memory) (id : NodeId) : Memory :=
  { m with computed := m.computed.insert id }

/-- Marking an object affects no other one. -/
theorem isComputed_markComputed_ne (m : Memory) {id other : NodeId} (h : other ≠ id) :
    (m.markComputed id).isComputed other = m.isComputed other := by
  simp [isComputed, markComputed, Ne.symm h]

/-- The memory after a first computation was reported to an observer, if there is one. -/
def report (m : Memory) (observer : Option Observer) (computed : Computed) : Memory :=
  match observer with
  | some o => { m with entries := o.report computed m.entries }
  | none => m

end Memory

end EntityQuery
