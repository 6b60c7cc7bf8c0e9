import EntityQuery.Proofs.Cache.Digests
import EntityQuery.Proofs.Formula.Built
import EntityQuery.Sort.Merge

/-!
# What digests stand for

The cache knows a filter by its digest and by the snapshots that it reads. The digest does not name
versions, and the snapshots do not say where in the filter they are read. Together they determine
the result, provided that a version of an index has one content (`Contents`), and that no index is
read at two versions (`SingleVersion`).

The way there is a relation between digests and results (`Contents.Means`). It reads each index at a
version that is chosen beforehand, it relates a digest to one result at most (`Means.unique`), and
it relates the digest of every filter that reads the chosen versions to the result of that filter
(`Formula.Built.means`).
-/

namespace EntityQuery

/-- What the indexes hold at each version. -/
structure Contents where
  /-- The keys of an index. -/
  keys : IndexId → ℕ → CandidateSet
  /-- The prices of a price list. -/
  prices : IndexId → ℕ → PriceIndex
  /-- The records of a partition of a sort index. -/
  records : IndexId → ℕ → List SortedRecord

/-- Whether no index is read at two versions. -/
def SingleVersion (snapshots : List Digest) : Prop :=
  ∀ i v w, snapshotDigest i v ∈ snapshots → snapshotDigest i w ∈ snapshots → v = w

/-- Whether each index is read at the version that is chosen for it. -/
def ReadsAt (versions : IndexId → ℕ) (snapshots : List Digest) : Prop :=
  ∀ i v, snapshotDigest i v ∈ snapshots → versions i = v

/-- What reads each index at a chosen version still does so when it reads less. -/
theorem ReadsAt.mono {versions : IndexId → ℕ} {l l' : List Digest} (h : ReadsAt versions l)
    (hsub : ∀ d ∈ l', d ∈ l) : ReadsAt versions l' :=
  fun i v hv => h i v (hsub _ hv)

/-- What reads no index at two versions still does so when it reads less. -/
theorem SingleVersion.mono {l l' : List Digest} (h : SingleVersion l) (hsub : ∀ d ∈ l', d ∈ l) :
    SingleVersion l' :=
  fun i v w hv hw => h i v w (hsub _ hv) (hsub _ hw)

/-- Where all indexes are read at one version, none is read at two. -/
theorem SingleVersion.of_forall_eq {l : List Digest} {v : ℕ}
    (h : ∀ i w, snapshotDigest i w ∈ l → w = v) : SingleVersion l :=
  fun i w w' hw hw' => (h i w hw).trans (h i w' hw').symm

/-- Where no index is read at two versions, a version can be chosen for each. -/
theorem SingleVersion.exists_readsAt {l : List Digest} (h : SingleVersion l) :
    ∃ versions, ReadsAt versions l := by
  have hchoice (i : IndexId) : ∃ w, ∀ v, snapshotDigest i v ∈ l → w = v := by
    by_cases hread : ∃ w, snapshotDigest i w ∈ l
    · obtain ⟨w, hw⟩ := hread
      exact ⟨w, fun v hv => h i w v hw hv⟩
    · -- An index that is not read may have any version.
      refine ⟨0, fun v hv => ?_⟩
      exact absurd ⟨v, hv⟩ hread
  choose versions hversions using hchoice
  exact ⟨versions, fun i v hv => hversions i v hv⟩

namespace CandidateSet

/-- An intersection depends on nothing but which sets there are. -/
theorem interAll_congr {l l' : List CandidateSet} (h : ∀ s, s ∈ l ↔ s ∈ l') :
    interAll l = interAll l' := by
  have hnil : l = [] ↔ l' = [] := by
    rw [List.eq_nil_iff_forall_not_mem, List.eq_nil_iff_forall_not_mem]
    exact forall_congr' fun s => not_congr (h s)
  by_cases hl : l = []
  · rw [hl, hnil.1 hl]
  · have hl' : l' ≠ [] := fun h' => hl (hnil.2 h')
    rw [ext_iff_mem]
    intro k
    rw [mem_interAll hl, mem_interAll hl']
    exact forall_congr' fun s => by rw [h s]

/-- A union depends on nothing but which sets there are. -/
theorem unionAll_congr {l l' : List CandidateSet} (h : ∀ s, s ∈ l ↔ s ∈ l') :
    unionAll l = unionAll l' := by
  rw [ext_iff_mem]
  intro k
  rw [mem_unionAll, mem_unionAll]
  exact exists_congr fun s => by rw [h s]

end CandidateSet

namespace Contents

variable {C : Contents} {versions : IndexId → ℕ}

/-- Leaves hold what the indexes hold at their versions, and cached keys are the result of their
computation. Of observers nothing is asked. -/
def provenance (C : Contents) : Provenance where
  snapshot s := s.keys = C.keys s.id s.version
  prices prices predicate := prices = C.prices prices.id prices.version ∧ predicate.Bounded
  partless := True
  cached f keys := keys = f.result
  observer _ _ := True

/-- The result that a digest stands for, where each index is read at a chosen version. The parts of
conjunctions and disjunctions are given with their results. -/
inductive Means (C : Contents) (versions : IndexId → ℕ) : Digest → CandidateSet → Prop
  /-- No key. -/
  | empty : Means C versions (.tagged 0x01 []) ∅
  /-- Listed keys. -/
  | constant (keys : CandidateSet) :
    Means C versions (.tagged 0x02 (Digest.orderedPart (keys.keys.map .word))) keys
  /-- An index. -/
  | index (i : IndexId) : Means C versions (.tagged 0x03 [.word i]) (C.keys i (versions i))
  /-- A conjunction. -/
  | and (parts : List (Digest × CandidateSet)) (h : ∀ p ∈ parts, Means C versions p.1 p.2) :
    Means C versions (.tagged 0x04 (Digest.unorderedPart (parts.map (·.1))))
      (.interAll (parts.map (·.2)))
  /-- A disjunction. -/
  | or (parts : List (Digest × CandidateSet)) (h : ∀ p ∈ parts, Means C versions p.1 p.2) :
    Means C versions (.tagged 0x05 (Digest.unorderedPart (parts.map (·.1))))
      (.unionAll (parts.map (·.2)))
  /-- A difference. -/
  | not {d e : Digest} {s t : CandidateSet} (hd : Means C versions d s)
    (he : Means C versions e t) :
    Means C versions (.tagged 0x06 (Digest.orderedPart [d, e])) (t.diff s)
  /-- A price filter. -/
  | price {d : Digest} {s : CandidateSet} (i : IndexId) {predicate : AmountPredicate}
    (hd : Means C versions d s) (hp : predicate.Bounded) :
    Means C versions (.tagged 0x07 [d, .word i, predicate.digest])
      ((C.prices i (versions i)).select predicate s)

namespace Means

/-- Parts with the same digests have the same results, in whatever order they are given. -/
theorem mem_results_iff {parts parts' : List (Digest × CandidateSet)}
    (hunique : ∀ p ∈ parts, ∀ p' ∈ parts', p.1 = p'.1 → p.2 = p'.2)
    (hperm : (parts.map (·.1)).Perm (parts'.map (·.1))) (s : CandidateSet) :
    s ∈ parts.map (·.2) ↔ s ∈ parts'.map (·.2) := by
  constructor
  · intro hs
    obtain ⟨p, hp, rfl⟩ := List.mem_map.1 hs
    obtain ⟨p', hp', hdigest⟩ := List.mem_map.1 (hperm.mem_iff.1 (List.mem_map_of_mem hp))
    rw [hunique p hp p' hp' hdigest.symm]
    exact List.mem_map_of_mem hp'
  · intro hs
    obtain ⟨p', hp', rfl⟩ := List.mem_map.1 hs
    obtain ⟨p, hp, hdigest⟩ := List.mem_map.1 (hperm.mem_iff.2 (List.mem_map_of_mem hp'))
    rw [← hunique p hp p' hp' hdigest]
    exact List.mem_map_of_mem hp

/-- A digest stands for one result at most. -/
theorem unique {d e : Digest} {s t : CandidateSet} (hs : C.Means versions d s)
    (ht : C.Means versions e t) (h : d = e) : s = t := by
  -- The tags of the two digests agree, so both results are obtained in the same way.
  induction hs generalizing e t with
  | empty =>
    cases ht with
    | empty => rfl
    | _ => exact absurd (Digest.tagged_inj.1 h).1 (by decide)
  | constant keys =>
    cases ht with
    | constant =>
      have hwords := Digest.orderedPart_inj.1 (Digest.tagged_inj.1 h).2
      have hkeys : keys.keys = t.keys :=
        List.map_injective_iff.2 (fun _ _ => Digest.word.inj) hwords
      rw [CandidateSet.ext_iff_mem]
      intro k
      rw [CandidateSet.mem_iff, CandidateSet.mem_iff, hkeys]
    | _ => exact absurd (Digest.tagged_inj.1 h).1 (by decide)
  | index i =>
    cases ht with
    | index j =>
      obtain ⟨hword, -⟩ := List.cons.inj (Digest.tagged_inj.1 h).2
      rw [Digest.word.inj hword]
    | _ => exact absurd (Digest.tagged_inj.1 h).1 (by decide)
  | and parts _ ih =>
    cases ht with
    | and parts' hparts' =>
      have hperm := Digest.unorderedPart_eq_iff.1 (Digest.tagged_inj.1 h).2
      have hunique : ∀ p ∈ parts, ∀ p' ∈ parts', p.1 = p'.1 → p.2 = p'.2 :=
        fun p hp p' hp' hdigest => ih p hp (hparts' p' hp') hdigest
      exact CandidateSet.interAll_congr (mem_results_iff hunique hperm)
    | _ => exact absurd (Digest.tagged_inj.1 h).1 (by decide)
  | or parts _ ih =>
    cases ht with
    | or parts' hparts' =>
      have hperm := Digest.unorderedPart_eq_iff.1 (Digest.tagged_inj.1 h).2
      have hunique : ∀ p ∈ parts, ∀ p' ∈ parts', p.1 = p'.1 → p.2 = p'.2 :=
        fun p hp p' hp' hdigest => ih p hp (hparts' p' hp') hdigest
      exact CandidateSet.unionAll_congr (mem_results_iff hunique hperm)
    | _ => exact absurd (Digest.tagged_inj.1 h).1 (by decide)
  | not _ _ ihd ihe =>
    cases ht with
    | not hd' he' =>
      have hparts := Digest.orderedPart_inj.1 (Digest.tagged_inj.1 h).2
      obtain ⟨hd, hrest⟩ := List.cons.inj hparts
      obtain ⟨he, -⟩ := List.cons.inj hrest
      rw [ihd hd' hd, ihe he' he]
    | _ => exact absurd (Digest.tagged_inj.1 h).1 (by decide)
  | price i _ hp ih =>
    cases ht with
    | price j hd' hp' =>
      obtain ⟨hd, hrest⟩ := List.cons.inj (Digest.tagged_inj.1 h).2
      obtain ⟨hindex, hrest⟩ := List.cons.inj hrest
      obtain ⟨hpredicate, -⟩ := List.cons.inj hrest
      rw [ih hd' hd, Digest.word.inj hindex, AmountPredicate.digest_inj hp hp' hpredicate]
    | _ => exact absurd (Digest.tagged_inj.1 h).1 (by decide)

end Means

end Contents

namespace Formula

variable {C : Contents} {versions : IndexId → ℕ}

/-- A composite node reads what its parts read. -/
theorem mem_compositeSnapshots {d : Digest} {children : List Formula} :
    d ∈ compositeSnapshots children ↔ ∃ c ∈ children, d ∈ c.snapshots := by
  rw [compositeSnapshots, Digest.mem_sortDistinct, List.mem_flatMap]

/-- A composite node reads the same snapshots, in whatever order its parts are listed. -/
theorem compositeSnapshots_eq_of_perm {children children' : List Formula}
    (h : children.Perm children') : compositeSnapshots children = compositeSnapshots children' :=
  Digest.sortDistinct_eq_of_perm (h.flatMap_right _)

/-- Where the digest of each part stands for its result, so do they together. -/
theorem parts_mean {children : List Formula} (hv : ReadsAt versions (compositeSnapshots children))
    (h : ∀ c ∈ children, ReadsAt versions c.snapshots → C.Means versions c.digest c.result) :
    ∀ p ∈ children.map fun c => (c.digest, c.result), C.Means versions p.1 p.2 := by
  intro p hp
  obtain ⟨c, hc, rfl⟩ := List.mem_map.1 hp
  exact h c hc (hv.mono fun d hd => mem_compositeSnapshots.2 ⟨c, hc, hd⟩)

/-- The digest of a formula that reads each index at a chosen version stands for its result. -/
theorem Built.means {f : Formula} (hf : f.Built C.provenance) (hv : ReadsAt versions f.snapshots) :
    C.Means versions f.digest f.result := by
  -- What carries the induction is that every part reads a part of what the whole reads.
  induction hf with
  | empty id => exact .empty
  | constant id keys => exact .constant keys
  | @index id s hs =>
    -- The digest names the index only; its version is the one that is chosen.
    have hversion : versions s.id = s.version := hv _ _ List.mem_cons_self
    have hkeys : s.keys = C.keys s.id (versions s.id) := by
      rw [hversion]
      exact hs
    show C.Means versions _ s.keys
    rw [hkeys]
    exact .index s.id
  | @and id children _ _ ih =>
    have h := Contents.Means.and _ (parts_mean hv ih)
    rw [List.map_map, List.map_map] at h
    exact h
  | @or id children _ _ ih =>
    have h := Contents.Means.or _ (parts_mean hv ih)
    rw [List.map_map, List.map_map] at h
    exact h
  | @not id f g _ _ ihf ihg =>
    have hf := ihf (hv.mono fun d hd => mem_compositeSnapshots.2 ⟨f, by simp, hd⟩)
    have hg := ihg (hv.mono fun d hd => mem_compositeSnapshots.2 ⟨g, by simp, hd⟩)
    exact .not hf hg
  | @price id source prices predicate _ hp ih =>
    obtain ⟨hprices, hbounded⟩ := hp
    have hread : ∀ d, d ∈ (Formula.price (priceProfile id source prices predicate) source prices
        predicate).snapshots ↔ d ∈ source.snapshots ++ [prices.digest] :=
      fun d => Digest.mem_sortDistinct
    have hsource := ih (hv.mono fun d hd => (hread d).2 (List.mem_append_left _ hd))
    have hversion : versions prices.id = prices.version :=
      hv _ _ ((hread _).2 (List.mem_append_right _ List.mem_cons_self))
    have hindex : prices = C.prices prices.id (versions prices.id) := by
      rw [hversion]
      exact hprices
    have h := Contents.Means.price prices.id hsource hbounded
    rw [← hindex] at h
    exact h
  | cached id _ hkeys ih =>
    obtain rfl := hkeys
    exact ih hv
  | observed id cost _ _ ih => exact ih hv

/-- Filters with the same digest that read the same snapshots have the same result. -/
theorem Built.result_eq {f g : Formula} (hf : f.Built C.provenance) (hg : g.Built C.provenance)
    (hsingle : SingleVersion f.snapshots) (hdigest : f.digest = g.digest)
    (hsnapshots : f.snapshotsDigest = g.snapshotsDigest) : f.result = g.result := by
  obtain ⟨versions, hv⟩ := hsingle.exists_readsAt
  have hperm : f.snapshots.Perm g.snapshots := Digest.unordered_eq_iff.1 hsnapshots
  have hv' : ReadsAt versions g.snapshots := hv.mono fun d hd => hperm.mem_iff.2 hd
  exact (hf.means hv).unique (hg.means hv') hdigest

end Formula

end EntityQuery
