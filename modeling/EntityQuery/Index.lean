import EntityQuery.Amount
import EntityQuery.Bisection
import EntityQuery.CandidateSet

/-!
# Snapshots of indexes

What a query reads from an index is a snapshot: the identity of the index, a version, and the
content at that version. A snapshot's digest tells index and version, never the content.
-/

namespace EntityQuery

/-- The identity of an index. -/
abbrev IndexId : Type := Nat

/-- What identifies a version of an index. -/
def snapshotDigest (id : IndexId) (version : Nat) : Digest :=
  Digest.ofList [.word id, .word version]

/-- The digest of a version tells the index and the version. -/
theorem snapshotDigest_inj {i j : IndexId} {v w : Nat} :
    snapshotDigest i v = snapshotDigest j w ↔ i = j ∧ v = w := by
  simp [snapshotDigest, Digest.ofList_inj]

/-- The keys that an index holds at some version. -/
structure IndexSnapshot where
  id : IndexId
  version : Nat
  keys : CandidateSet

namespace IndexSnapshot

/-- The first snapshot of an index. -/
def ofKeys (id : IndexId) (keys : List Nat) : IndexSnapshot := ⟨id, 1, .ofKeys keys⟩

/-- The next snapshot of the same index. -/
def next (s : IndexSnapshot) (keys : List Nat) : IndexSnapshot :=
  ⟨s.id, Word.wrap (s.version + 1), .ofKeys keys⟩

/-- What identifies the snapshot. -/
def digest (s : IndexSnapshot) : Digest := snapshotDigest s.id s.version

end IndexSnapshot

/-- The prices of a price list at some version, ordered by entity. -/
structure PriceIndex where
  id : IndexId
  version : Nat
  /-- The precision of the amounts. -/
  places : Nat
  records : List PriceRecord
  /-- The entities that have a price. -/
  entities : CandidateSet

namespace PriceIndex

/-- The first snapshot of a price list. Prices are ordered by entity, then by inner record, and
stay in the given order otherwise. -/
def ofRecords (id : IndexId) (places : Nat) (records : List PriceRecord) : PriceIndex where
  id := id
  version := 1
  places := places
  records := records.mergeSort fun a b =>
    decide (a.entity < b.entity ∨ a.entity = b.entity ∧ a.inner ≤ b.inner)
  entities := .ofKeys (records.map (·.entity))

/-- What identifies the snapshot. -/
def digest (p : PriceIndex) : Digest := snapshotDigest p.id p.version

/-- The prices of one entity. -/
def pricesOf (p : PriceIndex) (entity : Nat) : List PriceRecord :=
  equalRange PriceRecord.entity p.records.toArray entity

/-- What holds of every price list: bisection finds the prices of an entity, and the entities that
are listed are those with a price. -/
structure WellFormed (p : PriceIndex) : Prop where
  /-- Prices stand in the order of their entities. -/
  sorted : p.records.Pairwise fun a b => a.entity ≤ b.entity
  /-- The entities are those with a price. -/
  mem_entities (entity : Nat) : entity ∈ p.entities ↔ ∃ r ∈ p.records, r.entity = entity

/-- A price index that is made of records is well formed. -/
theorem wellFormed_ofRecords (id : IndexId) (places : Nat) (records : List PriceRecord) :
    (ofRecords id places records).WellFormed where
  sorted := by
    refine (List.pairwise_mergeSort (fun a b c h1 h2 => ?_) (fun a b => ?_) records).imp
      fun {a b} h => ?_
    · simp only [decide_eq_true_eq] at *
      omega
    · simp only [Bool.or_eq_true, decide_eq_true_eq]
      omega
    · simp only [decide_eq_true_eq] at h
      omega
  mem_entities entity := by
    simp only [ofRecords, CandidateSet.mem_ofKeys, List.mem_map, List.mem_mergeSort]

/-- The prices that are found for an entity are those that it has. -/
theorem WellFormed.mem_pricesOf {p : PriceIndex} (h : p.WellFormed) {entity : Nat}
    {r : PriceRecord} : r ∈ p.pricesOf entity ↔ r ∈ p.records ∧ r.entity = entity := by
  rw [pricesOf, equalRange_eq_filter h.sorted, List.mem_filter, beq_iff_eq]

end PriceIndex

end EntityQuery
