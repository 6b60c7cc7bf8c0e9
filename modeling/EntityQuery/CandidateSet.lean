import Std.Data.HashSet

/-!
# Candidate sets

The primary keys of entities are natural numbers, and a candidate set is a finite set of them in
ascending order. Its operations are the set operations, and its size is that of a compressed bitmap:
keys are grouped into chunks of 65536, and a chunk is kept as a list of its keys or, beyond 4096 of
them, as a bitmap.
-/

namespace EntityQuery

/-- A set of keys, kept in ascending order without repetitions. -/
structure CandidateSet where
  keys : List Nat
  ascending : keys.Pairwise (· < ·)
  deriving DecidableEq

/-- A non-descending list without its repetitions. -/
def dropRepeats {α : Type} [DecidableEq α] (keys : List α) : List α :=
  keys.foldr (fun k rest => if rest.head? = some k then rest else k :: rest) []

/-- A key stays unless it begins what is left of the others. -/
theorem dropRepeats_cons {α : Type} [DecidableEq α] (k : α) (keys : List α) :
    dropRepeats (k :: keys)
      = if (dropRepeats keys).head? = some k then dropRepeats keys else k :: dropRepeats keys := rfl

/-- Dropping repetitions loses no key. -/
theorem mem_dropRepeats {α : Type} [DecidableEq α] {k : α} {keys : List α} :
    k ∈ dropRepeats keys ↔ k ∈ keys := by
  induction keys with
  | nil => simp [dropRepeats]
  | cons a r ih =>
    rw [dropRepeats_cons]
    split
    · rename_i h
      have : a ∈ dropRepeats r := List.mem_of_mem_head? h
      by_cases hk : k = a
      · subst hk
        simp [this]
      · simp [ih, hk]
    · simp [ih]

/-- What is left without repetitions stands in its old order. -/
theorem dropRepeats_sublist {α : Type} [DecidableEq α] (keys : List α) :
    (dropRepeats keys).Sublist keys := by
  induction keys with
  | nil => exact List.Sublist.slnil
  | cons a r ih =>
    rw [dropRepeats_cons]
    split
    · exact ih.cons a
    · exact ih.cons_cons a

/-- A non-descending list without its repetitions is ascending. -/
theorem pairwise_dropRepeats {keys : List Nat} (h : keys.Pairwise (· ≤ ·)) :
    (dropRepeats keys).Pairwise (· < ·) := by
  induction keys with
  | nil => exact List.Pairwise.nil
  | cons a r ih =>
    obtain ⟨ha, hr⟩ := List.pairwise_cons.1 h
    have ih := ih hr
    rw [dropRepeats_cons]
    split
    · exact ih
    · rename_i hne
      refine List.pairwise_cons.2 ⟨fun b hb => ?_, ih⟩
      have hab : a ≤ b := ha b (mem_dropRepeats.1 hb)
      rcases Nat.lt_or_eq_of_le hab with hlt | heq
      · exact hlt
      -- A repetition of `a` would have to be the first key that is left.
      · subst heq
        exfalso
        cases hd : dropRepeats r with
        | nil => simp [hd] at hb
        | cons c t =>
          rw [hd] at hb ih
          have hac : a ≤ c := ha c (mem_dropRepeats.1 (by simp [hd]))
          rcases List.mem_cons.1 hb with hc | ht
          · exact hne (by simp [hd, hc])
          · have := (List.pairwise_cons.1 ih).1 a ht
            omega

namespace CandidateSet

/-- The set of the keys of a list. -/
def ofKeys (keys : List Nat) : CandidateSet where
  keys := dropRepeats (keys.mergeSort (· ≤ ·))
  ascending := pairwise_dropRepeats <| by
    have trans (a b c : Nat) (h1 : decide (a ≤ b)) (h2 : decide (b ≤ c)) : decide (a ≤ c) := by
      simp_all
      omega
    have total (a b : Nat) : (decide (a ≤ b) || decide (b ≤ a)) = true := by
      simp
      omega
    simpa using List.pairwise_mergeSort trans total keys

/-- The set without keys. -/
def empty : CandidateSet := ⟨[], List.Pairwise.nil⟩

instance : EmptyCollection CandidateSet := ⟨empty⟩
instance : Inhabited CandidateSet := ⟨empty⟩
instance : Membership Nat CandidateSet := ⟨fun s k => k ∈ s.keys⟩
instance (k : Nat) (s : CandidateSet) : Decidable (k ∈ s) :=
  inferInstanceAs (Decidable (k ∈ s.keys))

/-- The number of keys. -/
def size (s : CandidateSet) : Nat := s.keys.length

/-- Whether there are no keys. -/
def isEmpty (s : CandidateSet) : Bool := s.keys.isEmpty

/-- Whether a key belongs to the set. -/
def contains (s : CandidateSet) (k : Nat) : Bool := s.keys.contains k

/-- The keys in a table for repeated look-ups. -/
def table (s : CandidateSet) : Std.HashSet Nat := Std.HashSet.ofList s.keys

/-- The members of the set among the keys of a sequence, in the order of the sequence. -/
def restrict (s : CandidateSet) (order : List Nat) : List Nat :=
  let table := s.table
  order.filter table.contains

/-- Restricting a sequence keeps its members of the set, in order. -/
theorem restrict_eq (s : CandidateSet) (order : List Nat) :
    s.restrict order = order.filter fun k => decide (k ∈ s) := by
  simp only [restrict, table]
  congr 1
  funext k
  rw [Bool.eq_iff_iff, decide_eq_true_iff]
  simp [Std.HashSet.contains_ofList, Membership.mem]

/-- Any selection from a set is a set. -/
def filter (s : CandidateSet) (p : Nat → Bool) : CandidateSet :=
  ⟨s.keys.filter p, s.ascending.filter p⟩

/-- The keys of both sets. -/
def inter (s t : CandidateSet) : CandidateSet :=
  let table := t.table
  s.filter table.contains

/-- The keys of the first set that the second one lacks. -/
def diff (s t : CandidateSet) : CandidateSet :=
  let table := t.table
  s.filter fun k => !table.contains k

/-- The keys of either set. -/
def union (s t : CandidateSet) : CandidateSet := ofKeys (s.keys ++ t.keys)

/-- The members of a set are its keys. -/
theorem mem_iff {k : Nat} {s : CandidateSet} : k ∈ s ↔ k ∈ s.keys := Iff.rfl

/-- The empty set has no members. -/
@[simp] theorem not_mem_empty (k : Nat) : ¬k ∈ (∅ : CandidateSet) := List.not_mem_nil

/-- The set of a list has the members of the list. -/
@[simp] theorem mem_ofKeys {k : Nat} {keys : List Nat} : k ∈ ofKeys keys ↔ k ∈ keys := by
  rw [mem_iff, ofKeys, mem_dropRepeats]
  exact List.mem_mergeSort

/-- Filtering keeps the members that pass. -/
@[simp] theorem mem_filter {k : Nat} {s : CandidateSet} {p : Nat → Bool} :
    k ∈ s.filter p ↔ k ∈ s ∧ p k := List.mem_filter

/-- The table of a set contains its members. -/
theorem contains_table {k : Nat} {s : CandidateSet} : s.table.contains k = true ↔ k ∈ s := by
  simp [table, Std.HashSet.contains_ofList, mem_iff]

/-- An intersection has the members of both sets. -/
@[simp] theorem mem_inter {k : Nat} {s t : CandidateSet} : k ∈ s.inter t ↔ k ∈ s ∧ k ∈ t := by
  simp only [inter, mem_filter, contains_table]

/-- A difference has the members of the first set that the second one lacks. -/
@[simp] theorem mem_diff {k : Nat} {s t : CandidateSet} : k ∈ s.diff t ↔ k ∈ s ∧ ¬k ∈ t := by
  simp only [diff, mem_filter, ← contains_table (s := t), Bool.not_eq_true', Bool.not_eq_true]

/-- A union has the members of either set. -/
@[simp] theorem mem_union {k : Nat} {s t : CandidateSet} : k ∈ s.union t ↔ k ∈ s ∨ k ∈ t := by
  rw [union, mem_ofKeys, List.mem_append]
  rfl

/-- The keys of a set that some other sets have too. Once no key is left, the sets that follow are
not looked at. -/
def narrow (s : CandidateSet) : List CandidateSet → CandidateSet
  | [] => s
  | t :: rest => if s.isEmpty then s else (s.inter t).narrow rest

/-- The keys that all sets have, taking the smallest set first; none where there are no sets. -/
def interAll (sets : List CandidateSet) : CandidateSet :=
  match sets.mergeSort fun s t => decide (s.size ≤ t.size) with
  | [] => ∅
  | s :: rest => s.narrow rest

/-- The keys that some set has. -/
def unionAll (sets : List CandidateSet) : CandidateSet := ofKeys (sets.flatMap (·.keys))

/-- A set without keys has no members. -/
theorem not_mem_of_isEmpty {s : CandidateSet} (h : s.isEmpty = true) (k : Nat) : ¬k ∈ s := by
  rw [mem_iff, List.isEmpty_iff.1 h]
  exact List.not_mem_nil

/-- Narrowing a set by others keeps what is in all of them. -/
theorem mem_narrow {k : Nat} {s : CandidateSet} {rest : List CandidateSet} :
    k ∈ s.narrow rest ↔ k ∈ s ∧ ∀ t ∈ rest, k ∈ t := by
  induction rest generalizing s with
  | nil => simp [narrow]
  | cons t rest ih =>
    rw [narrow]
    split
    · rename_i hempty
      simp [not_mem_of_isEmpty hempty k]
    · simp [ih, and_assoc]

/-- The intersection of some sets has the members of all of them. -/
theorem mem_interAll {k : Nat} {sets : List CandidateSet} (h : sets ≠ []) :
    k ∈ interAll sets ↔ ∀ s ∈ sets, k ∈ s := by
  unfold interAll
  have perm := List.mergeSort_perm sets fun s t => decide (s.size ≤ t.size)
  split
  · rename_i heq
    rw [heq] at perm
    exact absurd perm.symm.eq_nil h
  · rename_i s rest heq
    rw [heq] at perm
    rw [mem_narrow]
    exact ⟨fun ⟨hs, hr⟩ t ht => (List.mem_cons.1 (perm.symm.subset ht)).elim
      (fun e => e ▸ hs) (hr t),
      fun all => ⟨all s (perm.subset List.mem_cons_self),
        fun t ht => all t (perm.subset (List.mem_cons_of_mem _ ht))⟩⟩

/-- The union of sets has the members of any of them. -/
@[simp] theorem mem_unionAll {k : Nat} {sets : List CandidateSet} :
    k ∈ unionAll sets ↔ ∃ s ∈ sets, k ∈ s := by
  rw [unionAll, mem_ofKeys, List.mem_flatMap]
  rfl

/-- A set lists no key twice. -/
theorem nodup_keys (s : CandidateSet) : s.keys.Nodup := s.ascending.imp fun h => Nat.ne_of_lt h

/-- Two sets with the same members are equal. -/
theorem ext_iff_mem {s t : CandidateSet} : s = t ↔ ∀ k, k ∈ s ↔ k ∈ t := by
  refine ⟨fun h k => h ▸ Iff.rfl, fun h => ?_⟩
  have perm : s.keys.Perm t.keys := by
    refine List.perm_iff_count.2 fun k => ?_
    rw [s.nodup_keys.count, t.nodup_keys.count]
    simp only [show k ∈ s.keys ↔ k ∈ t.keys from h k]
  have keys : s.keys = t.keys :=
    perm.eq_of_pairwise (fun _ _ _ _ h1 h2 => absurd h1 (Nat.not_lt.2 (Nat.le_of_lt h2)))
      s.ascending t.ascending
  cases s
  cases t
  simp_all

/-- The keys at the positions from `start` up to but not including `stop`. -/
def range (s : CandidateSet) (start stop : Nat) : List Nat :=
  (s.keys.drop start).take (stop - start)

/-- A list cut into pieces of `n` elements, the last of which may be shorter. -/
def pieces (n : Nat) (keys : List Nat) (done : Array (List Nat)) : List (List Nat) :=
  if _h : keys.isEmpty ∨ n = 0 then done.toList
  else pieces n (keys.drop n) (done.push (keys.take n))
termination_by keys.length
decreasing_by
  have : keys.length ≠ 0 := by simp_all
  simp only [List.length_drop]
  omega

/-- The keys in ascending batches of at most `n` keys, and of one where `n` is zero. -/
def batches (s : CandidateSet) (n : Nat) : List (List Nat) := pieces (max n 1) s.keys #[]

/-- The bytes of one chunk of `n` keys: a descriptor, and the keys or a bitmap. -/
def chunkBytes (n : Nat) : Nat := 8 + if n ≤ 4096 then 2 * n else 8192

/-- The bytes of the compressed bitmap. -/
def bitmapBytes (s : CandidateSet) : Nat :=
  let chunks := s.keys.splitBy fun a b => a / 65536 == b / 65536
  chunks.foldl (fun n chunk => n + chunkBytes chunk.length) 8

/-- The bytes that the set is taken to occupy in a cache. -/
def footprint (s : CandidateSet) : Nat := 32 + s.bitmapBytes

end CandidateSet

/-- The keys of a sequence at their first occurrences. -/
def firstOccurrences (order : List Nat) : List Nat :=
  let step (state : Std.HashSet Nat × Array Nat) (k : Nat) :=
    if state.1.contains k then state else (state.1.insert k, state.2.push k)
  (order.foldl step (∅, #[])).2.toList

end EntityQuery
