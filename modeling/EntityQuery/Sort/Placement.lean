import EntityQuery.Bisection
import EntityQuery.CandidateSet

/-!
# Places by reference

Entities can be ordered by an order of other entities that they reference: each stands at the best
position among its references. Entities without a reference that occurs in that order have no place.

The references of an entity, the position of a referenced entity and the place of an entity are all
found by bisection, in tables that are sorted by what is looked for.
-/

namespace EntityQuery

/-- What entity references which. -/
abbrev References : Type := List (Nat × Nat)

/-- Whether a pair comes no later than another one, by the first part and then by the second. -/
def pairNoLater (a b : Nat × Nat) : Bool := decide (a.1 < b.1 ∨ a.1 = b.1 ∧ a.2 ≤ b.2)

/-- Sorted pairs are sorted by their first parts. -/
theorem mergeSort_pairs_sorted (pairs : List (Nat × Nat)) :
    (pairs.mergeSort pairNoLater).Pairwise fun a b => a.1 ≤ b.1 := by
  refine (List.pairwise_mergeSort (fun a b c h1 h2 => ?_) (fun a b => ?_) pairs).imp
    fun {a b} h => ?_
  · simp only [pairNoLater, decide_eq_true_eq] at *
    omega
  · simp only [pairNoLater, Bool.or_eq_true, decide_eq_true_eq]
    omega
  · simp only [pairNoLater, decide_eq_true_eq] at h
    omega

/-- Whether a pair of a key and its rank comes no later than another one, by rank and then by
key. -/
def rankNoLater (a b : Nat × Nat) : Bool := decide (a.2 < b.2 ∨ a.2 = b.2 ∧ a.1 ≤ b.1)

/-- The keys of pairs of a key and its rank, by rank and then by key. -/
def byRank (ranked : List (Nat × Nat)) : List Nat := (ranked.mergeSort rankNoLater).map (·.1)

/-- The references by entity, each of them once. -/
def References.table (references : References) : List (Nat × Nat) :=
  dropRepeats (references.mergeSort pairNoLater)

/-- The table of references lists all of them and nothing else. -/
theorem References.mem_table {references : References} {r : Nat × Nat} :
    r ∈ references.table ↔ r ∈ references := by
  rw [table, mem_dropRepeats, List.mem_mergeSort]

/-- The table of references is sorted by entity. -/
theorem References.table_sorted (references : References) :
    references.table.Pairwise fun a b => a.1 ≤ b.1 :=
  (mergeSort_pairs_sorted references).sublist (dropRepeats_sublist _)

/-- The places of entities in the order of what they reference. -/
structure Placement where
  /-- The entities that were to be placed. -/
  input : CandidateSet
  /-- The placed entities with their positions, by entity. -/
  positions : Array (Nat × Nat)
  /-- The other entities, in ascending order. -/
  unplaced : List Nat

namespace Placement

/-- The positions of the members of an order, by member. -/
def places (order : List Nat) : List (Nat × Nat) := order.zipIdx.mergeSort pairNoLater

/-- What stands beside a key in a table of pairs. Of several pairs with the key it is the last. -/
def find (table : Array (Nat × Nat)) (key : Nat) : Option Nat :=
  (lastWithKey (·.1) table key).map (·.2)

/-- The best position among the references of an entity. -/
def bestPosition (references places : Array (Nat × Nat)) (entity : Nat) : Option Nat :=
  ((equalRange (·.1) references entity).filterMap fun r => find places r.2).min?

/-- The best position among the references of an entity, in the order of what they reference. What
the order lists more than once stands at its last position. -/
def bestOf (references : References) (order : List Nat) (entity : Nat) : Option Nat :=
  bestPosition references.table.toArray (places order).toArray entity

/-- Places entities by an order of what they reference. -/
def ofOrder (references : References) (order : List Nat) (input : CandidateSet) : Placement :=
  let table := references.table.toArray
  let places := (places order).toArray
  { input
    positions := (input.keys.filterMap fun e => (bestPosition table places e).map (e, ·)).toArray
    unplaced := input.keys.filter fun e => (bestPosition table places e).isNone }

/-- The position of an entity. -/
def positionOf (p : Placement) (entity : Nat) : Option Nat := find p.positions entity

/-- The order of entities: placed ones by position, then the others, and by key among equals. -/
def compare (p : Placement) (a b : Nat) : Ordering :=
  match p.positionOf a, p.positionOf b with
  | some x, some y => (Ord.compare x y).then (Ord.compare a b)
  | some _, none => .lt
  | none, some _ => .gt
  | none, none => Ord.compare a b

/-- The placed entities of a set, by position and then by key. -/
def resolve (p : Placement) (keys : CandidateSet) : List Nat :=
  let table := keys.table
  byRank (p.positions.toList.filter fun e => table.contains e.1)

end Placement

end EntityQuery
