import EntityQuery.FacetCount
import EntityQuery.Proofs.Cache.Meaning
import EntityQuery.Proofs.Sort.Interleave

/-!
# Counts and orders by their digests

As for filters, the digest of a count of facets and the snapshots that it reads determine the
result, and so it is with merged orders. Counts and orders that are built as they should be are
described first (`FacetCount.Built`, `MergedRecords.Built`).

The digest of a count forgets the order of its buckets, which is the order of their facets. So it
has to be enough which index a facet is counted over (`FacetCount.summarize_eq`). The digest of an
interleaved order forgets the order of its providers, which leaves a trace in descending order, and
that of an appended order does not tell the versions of its providers. `MergeMode.Settled` is what
it takes for them to be enough (`MergedRecords.mergedKeys_eq`).
-/

namespace EntityQuery

variable {C : Contents} {p q : Provenance}

/-! ## Counts of facets -/

namespace FacetCount

/-- The snapshots that a count reads. -/
def snapshots (c : FacetCount) : List Digest :=
  c.filter.snapshots ++ c.buckets.map (·.entities.digest)

/-- The counts of buckets by their facets and indexes, where each index is read at a chosen
version. -/
theorem summarize_eq_map {buckets : List FacetBucket} {versions : IndexId → ℕ}
    (hbuckets : ∀ b ∈ buckets, C.provenance.snapshot b.entities)
    (hv : ReadsAt versions (buckets.map (·.entities.digest))) (passed : CandidateSet) :
    summarize buckets passed = ⟨(buckets.map fun b => (b.facet, b.entities.id)).map fun b =>
      (b.1, (passed.inter (C.keys b.2 (versions b.2))).size)⟩ := by
  rw [summarize, List.map_map]
  congr 1
  refine List.map_congr_left fun b hb => ?_
  have hversion : versions b.entities.id = b.entities.version := hv _ _ (List.mem_map_of_mem hb)
  have hkeys : b.entities.keys = C.keys b.entities.id b.entities.version := hbuckets b hb
  rw [Function.comp_apply, hkeys, hversion]

/-- Buckets of the same facets over the same indexes have the same counts, where they are in the
order of their facets, each facet has one index, and each index is read at a chosen version. -/
theorem summarize_eq {bs bs' : List FacetBucket} {versions : IndexId → ℕ}
    (hbs : ∀ b ∈ bs, C.provenance.snapshot b.entities)
    (hbs' : ∀ b ∈ bs', C.provenance.snapshot b.entities)
    (hv : ReadsAt versions (bs.map (·.entities.digest)))
    (hv' : ReadsAt versions (bs'.map (·.entities.digest)))
    (hsorted : bs.Pairwise (·.facet ≤ ·.facet)) (hsorted' : bs'.Pairwise (·.facet ≤ ·.facet))
    (hindex : ∀ b ∈ bs, ∀ b' ∈ bs, b.facet = b'.facet → b.entities.id = b'.entities.id)
    (hparts : (bs.map fun b => Digest.ofList [.word b.facet, .word b.entities.id]).Perm
      (bs'.map fun b => Digest.ofList [.word b.facet, .word b.entities.id]))
    (passed : CandidateSet) : summarize bs passed = summarize bs' passed := by
  -- The buckets are the same up to the order, and in order.
  have hbuckets : bs.map (fun b => (b.facet, b.entities.id))
      = bs'.map fun b => (b.facet, b.entities.id) := by
    have hinj : Function.Injective fun b : ℕ × ℕ => Digest.ofList [.word b.1, .word b.2] := by
      rintro ⟨f, i⟩ ⟨g, j⟩ h
      simpa [Digest.ofList_inj] using h
    have hpart (l : List FacetBucket) : l.map (fun b => Digest.ofList [.word b.facet,
        .word b.entities.id]) = (l.map fun b => (b.facet, b.entities.id)).map
          fun b => Digest.ofList [.word b.1, .word b.2] := by
      rw [List.map_map]
      rfl
    rw [hpart, hpart, List.map_perm_map_iff hinj] at hparts
    have hordered {l : List FacetBucket} (h : l.Pairwise (·.facet ≤ ·.facet)) :
        (l.map fun b => (b.facet, b.entities.id)).Pairwise fun a b => a.1 ≤ b.1 :=
      List.pairwise_map.2 h
    refine hparts.eq_of_pairwise ?_ (hordered hsorted) (hordered hsorted')
    intro x y hx hy hxy hyx
    obtain ⟨b, hb, rfl⟩ := List.mem_map.1 hx
    obtain ⟨b', hb', rfl⟩ := List.mem_map.1 (hparts.mem_iff.2 hy)
    have hfacet := Nat.le_antisymm hxy hyx
    rw [Prod.mk.injEq]
    exact ⟨hfacet, hindex b hb b' hb' hfacet⟩
  rw [summarize_eq_map hbs hv, summarize_eq_map hbs' hv', hbuckets]

/-- A count has the buckets that it is made with. -/
theorem buckets_ofFilter_perm (filter : Formula) (buckets : List FacetBucket) (m : Memory) :
    (FacetCount.ofFilter filter buckets m).1.buckets.Perm buckets :=
  List.mergeSort_perm _ _

/-- The buckets of a count are in the order of their facets. -/
theorem buckets_ofFilter_sorted (filter : Formula) (buckets : List FacetBucket) (m : Memory) :
    (FacetCount.ofFilter filter buckets m).1.buckets.Pairwise (·.facet ≤ ·.facet) := by
  let noLater (a b : FacetBucket) : Bool := decide (a.facet ≤ b.facet)
  have htrans (a b c : FacetBucket) (hab : noLater a b) (hbc : noLater b c) : noLater a c := by
    simp only [noLater, decide_eq_true_eq] at *
    omega
  have htotal (a b : FacetBucket) : noLater a b || noLater b a := by
    simp only [noLater, Bool.or_eq_true, decide_eq_true_eq]
    omega
  exact (List.pairwise_mergeSort htrans htotal buckets).imp of_decide_eq_true

/-- What a count is built with. -/
structure Built (p : Provenance) (c : FacetCount) : Prop where
  /-- The filter is built as filters are. -/
  filter : c.filter.Built p
  /-- The buckets hold index snapshots. -/
  buckets : ∀ b ∈ c.buckets, p.snapshot b.entities
  /-- Facets are distinct, and in ascending order. -/
  ascending : c.buckets.Pairwise (·.facet < ·.facet)
  /-- The digest tells the filter, the facets and the indexes of the buckets. -/
  digest : c.digest = .tagged 0x20 (c.filter.digest :: Digest.unorderedPart
    (c.buckets.map fun b => Digest.ofList [.word b.facet, .word b.entities.id]))
  /-- The snapshots are told apart from the digest. -/
  snapshotsDigest : c.snapshotsDigest = .unordered c.snapshots
  /-- The result is the count. -/
  result : c.result.get = summarize c.buckets c.filter.result

namespace Built

/-- A count that is built from one kind of leaves is built from a wider kind. -/
theorem mono (hpq : p.Le q) {c : FacetCount} (h : c.Built p) : c.Built q where
  filter := h.filter.mono hpq
  buckets b hb := hpq.snapshot _ (h.buckets b hb)
  ascending := h.ascending
  digest := h.digest
  snapshotsDigest := h.snapshotsDigest
  result := h.result

/-- Counts over a filter are built, where the facets are distinct. -/
theorem ofFilter {filter : Formula} {buckets : List FacetBucket} (hfilter : filter.Built p)
    (hbuckets : ∀ b ∈ buckets, p.snapshot b.entities) (hdistinct : (buckets.map (·.facet)).Nodup)
    (m : Memory) : (FacetCount.ofFilter filter buckets m).1.Built p := by
  have hperm := buckets_ofFilter_perm filter buckets m
  refine ⟨hfilter, fun b hb => hbuckets b (hperm.mem_iff.1 hb), ?_, rfl, rfl, rfl⟩
  have hnodup := ((hperm.map (·.facet)).nodup_iff).2 hdistinct
  -- Sorted facets that are distinct ascend strictly.
  refine ((buckets_ofFilter_sorted filter buckets m).and (List.pairwise_map.1 hnodup)).imp ?_
  rintro a b ⟨hle, hne⟩
  exact Nat.lt_of_le_of_ne hle hne

/-- A count that replays its result is built. -/
theorem replaying {c : FacetCount} (h : c.Built p) (m : Memory) :
    (c.replaying c.result.get m).1.Built p where
  filter := h.filter
  buckets := h.buckets
  ascending := h.ascending
  digest := h.digest
  snapshotsDigest := h.snapshotsDigest
  result := h.result

/-- A count that is observed is built. -/
theorem observedBy {c : FacetCount} (h : c.Built p) (o : Observer) (m : Memory) :
    (c.observedBy o m).1.Built p where
  filter := h.filter
  buckets := h.buckets
  ascending := h.ascending
  digest := h.digest
  snapshotsDigest := h.snapshotsDigest
  result := rfl

/-- A facet is counted over one index. -/
theorem index_eq {c : FacetCount} (h : c.Built p) {b b' : FacetBucket} (hb : b ∈ c.buckets)
    (hb' : b' ∈ c.buckets) (hfacet : b.facet = b'.facet) : b.entities.id = b'.entities.id := by
  have hdistinct : (c.buckets.map (·.facet)).Nodup :=
    List.pairwise_map.2 (h.ascending.imp Nat.ne_of_lt)
  rw [List.inj_on_of_nodup_map hdistinct hb hb' hfacet]

/-- Counts with the same digest that read the same snapshots have the same result. -/
theorem result_eq {c d : FacetCount} (hc : c.Built C.provenance) (hd : d.Built C.provenance)
    (hsingle : SingleVersion c.snapshots) (hdigest : c.digest = d.digest)
    (hsnapshots : c.snapshotsDigest = d.snapshotsDigest) : c.result.get = d.result.get := by
  obtain ⟨versions, hv⟩ := hsingle.exists_readsAt
  rw [hc.snapshotsDigest, hd.snapshotsDigest, Digest.unordered_eq_iff] at hsnapshots
  have hv' : ReadsAt versions d.snapshots := hv.mono fun x hx => hsnapshots.mem_iff.2 hx
  rw [hc.digest, hd.digest, Digest.tagged_inj, List.cons.injEq, Digest.unorderedPart_eq_iff]
    at hdigest
  obtain ⟨-, hfilter, hparts⟩ := hdigest
  -- The filters agree, and so do the buckets.
  have hresult : c.filter.result = d.filter.result := by
    have hread := hc.filter.means (hv.mono fun x hx => List.mem_append_left _ hx)
    have hread' := hd.filter.means (hv'.mono fun x hx => List.mem_append_left _ hx)
    exact hread.unique hread' hfilter
  rw [hc.result, hd.result, hresult]
  exact summarize_eq hc.buckets hd.buckets (hv.mono fun x hx => List.mem_append_right _ hx)
    (hv'.mono fun x hx => List.mem_append_right _ hx) (hc.ascending.imp Nat.le_of_lt)
    (hd.ascending.imp Nat.le_of_lt) (fun b hb b' hb' => hc.index_eq hb hb') hparts _

end Built

end FacetCount

/-! ## Merged orders -/

/-- A direction is determined by its number. -/
theorem Direction.tag_inj {a b : Direction} (h : a.tag = b.tag) : a = b := by
  rcases a <;> rcases b <;> first | rfl | exact absurd h (by decide)

namespace MergeMode

open RecordProvider

/-- A mode is determined by its number. -/
theorem tag_inj {a b : MergeMode} (h : a.tag = b.tag) : a = b := by
  rcases a <;> rcases b <;> first | rfl | exact absurd h (by decide)

/-- Whether the digests of a merged order settle it. They do not tell which version of a partition
is appended first, so there each partition has one version. They do not tell either in which order
providers are interleaved. In descending order that leaves no trace where a record that two of them
share has the least key of its value, unless the two have the same records. -/
def Settled (mode : MergeMode) (direction : Direction) (providers : List RecordProvider) : Prop :=
  match mode, direction with
  | appendFirst, _ => SingleVersion (providers.map RecordProvider.digest)
  | interleave, .ascending => True
  | interleave, .descending => ∀ p ∈ providers, ∀ q ∈ providers, p.records ≠ q.records →
      ∀ r ∈ p.records, r ∈ q.records → ∀ x ∈ p.records, x.value = r.value → r.key ≤ x.key

/-- Providers of the same records in the same order are merged in one way only. -/
theorem merge_eq_of_records (mode : MergeMode) (direction : Direction) {ps qs : List RecordProvider}
    (h : ps.map (·.records) = qs.map (·.records)) :
    mode.merge direction ps = mode.merge direction qs := by
  have hruns : ps.map (fun p => direction.arrange p.records)
      = qs.map fun p => direction.arrange p.records := by
    have harrange := congrArg (List.map direction.arrange) h
    rwa [List.map_map, List.map_map] at harrange
  unfold merge
  rw [hruns]

variable {ps qs : List RecordProvider}

/-- The records of providers by partition, where each is read at a chosen version. -/
theorem records_eq_of_readsAt (hps : ∀ p ∈ ps, p.records = C.records p.id p.version)
    {versions : IndexId → ℕ} (hv : ReadsAt versions (ps.map digest)) :
    ps.map (·.records) = (ps.map (·.id)).map fun i => C.records i (versions i) := by
  rw [List.map_map]
  refine List.map_congr_left fun p hp => ?_
  have hversion : versions p.id = p.version := hv _ _ (List.mem_map_of_mem hp)
  rw [Function.comp_apply, hversion]
  exact hps p hp

/-- Providers at the same snapshots have the same records, in whatever order they are listed. -/
theorem records_perm (hps : ∀ p ∈ ps, p.records = C.records p.id p.version)
    (hqs : ∀ q ∈ qs, q.records = C.records q.id q.version)
    (h : (ps.map digest).Perm (qs.map digest)) :
    (ps.map (·.records)).Perm (qs.map (·.records)) := by
  -- A snapshot's digest tells partition and version, and these tell the records.
  have hinj : Function.Injective fun p : IndexId × ℕ => snapshotDigest p.1 p.2 := by
    rintro ⟨i, v⟩ ⟨j, w⟩ heq
    rw [Prod.mk.injEq]
    exact snapshotDigest_inj.1 heq
  have hsnapshots (l : List RecordProvider) : l.map digest
      = (l.map fun p => (p.id, p.version)).map fun p => snapshotDigest p.1 p.2 := by
    rw [List.map_map]
    rfl
  have hrecords {l : List RecordProvider} (hl : ∀ p ∈ l, p.records = C.records p.id p.version) :
      l.map (·.records) = (l.map fun p => (p.id, p.version)).map fun p => C.records p.1 p.2 := by
    rw [List.map_map]
    exact List.map_congr_left hl
  rw [hsnapshots, hsnapshots, List.map_perm_map_iff hinj] at h
  rw [hrecords hps, hrecords hqs]
  exact h.map _

/-- Providers at the same snapshots are merged alike, where their order is the same as far as the
digests have to settle it. -/
theorem merge_eq_of_snapshots {mode : MergeMode} {direction : Direction}
    (hps : ∀ p ∈ ps, p.records = C.records p.id p.version)
    (hqs : ∀ q ∈ qs, q.records = C.records q.id q.version)
    (hsorted : ∀ p ∈ ps, p.records.Pairwise fun a b => inOrder a b)
    (hsettled : mode.Settled direction ps)
    (hids : mode = .appendFirst → ps.map (·.id) = qs.map (·.id))
    (hsnapshots : (ps.map digest).Perm (qs.map digest)) :
    mode.merge direction ps = mode.merge direction qs := by
  rcases mode with - | -
  · -- The partitions are appended in their order, and each has one version.
    have hsingle : SingleVersion (ps.map digest) := hsettled
    obtain ⟨versions, hv⟩ := hsingle.exists_readsAt
    have hv' : ReadsAt versions (qs.map digest) := hv.mono fun x hx => hsnapshots.mem_iff.2 hx
    apply merge_eq_of_records
    rw [records_eq_of_readsAt hps hv, records_eq_of_readsAt hqs hv', hids rfl]
  · -- The snapshots tell the partitions with their versions, in some order.
    refine interleave_eq_of_perm (records_perm hps hqs hsnapshots) fun p hp q hq hne => ?_
    rcases direction with - | -
    · exact pairwise_ascending (hsorted p hp)
    · exact pairwise_descending (hsorted p hp) (hsettled p hp q hq hne)

end MergeMode

namespace MergedRecords

/-- The snapshots that an order reads. -/
def snapshots (r : MergedRecords) : List Digest := r.providers.map RecordProvider.digest

/-- The parts that tell how providers are merged. -/
def parts (r : MergedRecords) : List Digest :=
  match r.mode with
  | .appendFirst => Digest.orderedPart (r.providers.map fun p => .word p.id)
  | .interleave => Digest.unorderedPart (r.providers.map fun p => .word p.id)

/-- What an order is built with, where it does not depend on the order of providers that its digest
forgets. -/
structure Built (C : Contents) (r : MergedRecords) : Prop where
  /-- Providers hold what the sort indexes hold at their versions. -/
  records : ∀ p ∈ r.providers, p.records = C.records p.id p.version
  /-- Their records are in order. -/
  sorted : ∀ p ∈ r.providers, p.records.Pairwise fun a b => RecordProvider.inOrder a b
  /-- Providers are interleaved in ascending order only. -/
  ascending : r.mode = .appendFirst ∨ r.direction = .ascending
  /-- The digest tells mode and direction, and the partitions of the providers. -/
  digest : r.digest = .tagged 0x30 (.word r.mode.tag :: .word r.direction.tag :: r.parts)
  /-- The snapshots are told apart from the digest. -/
  snapshotsDigest : r.snapshotsDigest = .unordered r.snapshots
  /-- The result is the merged order. -/
  result : r.result.get = mergedKeys r.mode r.direction r.providers

/-- The digest of an order tells mode and direction, and the partitions of its providers. -/
theorem digest_ofProviders (providers : List RecordProvider) (mode : MergeMode)
    (direction : Direction) (m : Memory) :
    (MergedRecords.ofProviders providers mode direction m).1.digest
      = .tagged 0x30 (.word mode.tag :: .word direction.tag
        :: (MergedRecords.ofProviders providers mode direction m).1.parts) := by
  rcases mode <;> rfl

/-- Orders that are merged in the same way from the same snapshots list the same keys, where the
digests settle the order. -/
theorem mergedKeys_eq {r t : MergedRecords}
    (hr : ∀ p ∈ r.providers, p.records = C.records p.id p.version)
    (ht : ∀ p ∈ t.providers, p.records = C.records p.id p.version)
    (hsorted : ∀ p ∈ r.providers, p.records.Pairwise fun a b => RecordProvider.inOrder a b)
    (hsettled : r.mode.Settled r.direction r.providers)
    (hparts : Digest.word r.mode.tag :: .word r.direction.tag :: r.parts
      = Digest.word t.mode.tag :: .word t.direction.tag :: t.parts)
    (hsnapshots : r.snapshots.Perm t.snapshots) :
    mergedKeys r.mode r.direction r.providers = mergedKeys t.mode t.direction t.providers := by
  rw [List.cons.injEq, List.cons.injEq, Digest.word.injEq, Digest.word.injEq] at hparts
  obtain ⟨hmode, hdirection, hparts⟩ := hparts
  have hmode : r.mode = t.mode := MergeMode.tag_inj hmode
  have hdirection : r.direction = t.direction := Direction.tag_inj hdirection
  have hids : r.mode = .appendFirst → r.providers.map (·.id) = t.providers.map (·.id) := by
    intro happend
    rw [parts, parts, ← hmode, happend] at hparts
    have hwords : (r.providers.map (·.id)).map Digest.word
        = (t.providers.map (·.id)).map Digest.word := by
      rw [List.map_map, List.map_map]
      exact Digest.orderedPart_inj.1 hparts
    exact List.map_injective_iff.2 (fun _ _ => Digest.word.inj) hwords
  rw [mergedKeys, mergedKeys, ← hmode, ← hdirection,
    MergeMode.merge_eq_of_snapshots hr ht hsorted hsettled hids hsnapshots]

namespace Built

/-- Orders of providers are built, where providers are not interleaved in descending order. -/
theorem ofProviders {providers : List RecordProvider} {mode : MergeMode} {direction : Direction}
    (hrecords : ∀ p ∈ providers, p.records = C.records p.id p.version)
    (hsorted : ∀ p ∈ providers, p.records.Pairwise fun a b => RecordProvider.inOrder a b)
    (hascending : mode = .appendFirst ∨ direction = .ascending) (m : Memory) :
    (MergedRecords.ofProviders providers mode direction m).1.Built C where
  records := hrecords
  sorted := hsorted
  ascending := hascending
  digest := digest_ofProviders providers mode direction m
  snapshotsDigest := rfl
  result := rfl

/-- An order that replays its result is built. -/
theorem replaying {r : MergedRecords} (h : r.Built C) (m : Memory) :
    (r.replaying r.result.get m).1.Built C where
  records := h.records
  sorted := h.sorted
  ascending := h.ascending
  digest := h.digest
  snapshotsDigest := h.snapshotsDigest
  result := h.result

/-- An order that is observed is built. -/
theorem observedBy {r : MergedRecords} (h : r.Built C) (o : Observer) (m : Memory) :
    (r.observedBy o m).1.Built C where
  records := h.records
  sorted := h.sorted
  ascending := h.ascending
  digest := h.digest
  snapshotsDigest := h.snapshotsDigest
  result := rfl

/-- Digests settle an order that is not interleaved in descending order, where each partition has
one version. -/
theorem settled {r : MergedRecords} (h : r.Built C) (hsingle : SingleVersion r.snapshots) :
    r.mode.Settled r.direction r.providers := by
  rcases hmode : r.mode with - | -
  · exact hsingle
  · rcases h.ascending with happend | hascending
    · exact absurd (hmode.symm.trans happend) (by decide)
    · rw [hascending]
      trivial

/-- Orders with the same digest that read the same snapshots have the same result. -/
theorem result_eq {r t : MergedRecords} (hr : r.Built C) (ht : t.Built C)
    (hsingle : SingleVersion r.snapshots) (hdigest : r.digest = t.digest)
    (hsnapshots : r.snapshotsDigest = t.snapshotsDigest) : r.result.get = t.result.get := by
  rw [hr.snapshotsDigest, ht.snapshotsDigest, Digest.unordered_eq_iff] at hsnapshots
  rw [hr.digest, ht.digest, Digest.tagged_inj] at hdigest
  rw [hr.result, ht.result]
  exact mergedKeys_eq hr.records ht.records hr.sorted (hr.settled hsingle) hdigest.2 hsnapshots

end Built

end MergedRecords

end EntityQuery
