import EntityQuery.Proofs.Cache.Determined

/-!
# What identifies a computation

The cache takes two computations of one kind for the same where they have the same digest and read
the same snapshots. The digest does not tell versions, and the snapshots are told without the places
where they are read. For filters this identifies the result as long as no index is read at two
versions (`Formula.Constructed.compute_eq_of_singleVersion`). For counts of facets no index may be
counted at two versions and no facet over two indexes, since buckets of one facet keep the order in
which they are listed (`FacetCount.compute_eq_of_facets`). What it takes for merged orders is
`MergeMode.Settled` (`MergedRecords.compute_eq_of_settled`).

Without such conditions there are, in each case, two computations that the cache cannot tell apart
and that have different results.
-/

namespace EntityQuery

variable {C : Contents}

/-- Indexes that share a key with the next one, whose keys move up with the version, and partitions
of records, of which the first two share the last record, while the others share the first record of
the first. -/
def sharedContents : Contents where
  keys i version := .ofKeys [i + version, i + version + 1]
  prices i version := ⟨i, version, 0, [], ∅⟩
  records
    | 0, _ => [⟨5, 1⟩, ⟨5, 3⟩]
    | 1, _ => [⟨5, 2⟩, ⟨5, 3⟩]
    | _ + 2, _ => [⟨5, 1⟩, ⟨6, 2⟩]

/-- A snapshot of such an index. -/
def sharedSnapshot (i version : ℕ) : IndexSnapshot := ⟨i, version, sharedContents.keys i version⟩

/-! ## Filters -/

namespace Formula

/-- A filter that was put together by the constructors, from leaves that hold what the indexes hold
at their versions. The bounds of predicates on prices are signed words. -/
def Constructed (C : Contents) (f : Formula) : Prop := f.Made C.provenance

namespace Constructed

/-- Filters with the same digest that read the same snapshots have the same keys, where no index is
read at two versions. -/
theorem compute_eq_of_singleVersion {f g : Formula} (hf : f.Constructed C) (hg : g.Constructed C)
    (hsingle : SingleVersion f.snapshots) (hdigest : f.digest = g.digest)
    (hsnapshots : f.snapshotsDigest = g.snapshotsDigest) (m m' : Memory) :
    (f.compute m).1 = (g.compute m').1 :=
  hf.built.result_eq hg.built hsingle hdigest hsnapshots

end Constructed

/-- A filter over one of the shared indexes. -/
def shared (i version : ℕ) (m : Memory) : Formula := (ofIndex (sharedSnapshot i version) m).1

/-- Such a filter is put together by a constructor. -/
theorem constructed_shared (i version : ℕ) (m : Memory) :
    (shared i version m).Constructed sharedContents :=
  .ofIndex rfl m

/-- A conjunction of two indexes has the same keys whichever is named first. -/
theorem compute_eq_of_singleVersion_swapped :
    let a := shared 0 1 {}
    let b := shared 1 1 { fresh := 1 }
    let f := (allOf [a, b] { fresh := 2 }).1
    let g := (allOf [b, a] { fresh := 3 }).1
    f.digest = g.digest ∧ f.snapshotsDigest = g.snapshotsDigest
      ∧ (f.compute {}).1 = (g.compute {}).1 := by
  intro a b f g
  have hswap : [a, b].Perm [b, a] := .swap b a []
  have hparts : ∀ c ∈ [a, b], c.Constructed sharedContents := by simp [a, b, constructed_shared]
  have hf : f.Constructed sharedContents := .allOf hparts _
  have hg : g.Constructed sharedContents := .allOf (fun c hc => hparts c (hswap.mem_iff.2 hc)) _
  have hdigest : f.digest = g.digest :=
    congrArg (Digest.tagged 0x04) (Digest.unorderedPart_eq_iff.2 (hswap.map digest))
  have hsnapshots : f.snapshotsDigest = g.snapshotsDigest :=
    congrArg Digest.unordered (compositeSnapshots_eq_of_perm hswap)
  have hsingle : SingleVersion f.snapshots := by
    refine .of_forall_eq (v := 1) fun i w h => ?_
    obtain ⟨c, hc, hmem⟩ := mem_compositeSnapshots.1 h
    rcases List.mem_pair.1 hc with rfl | rfl
    · exact (snapshotDigest_inj.1 (List.mem_singleton.1 hmem)).2
    · exact (snapshotDigest_inj.1 (List.mem_singleton.1 hmem)).2
  exact ⟨hdigest, hsnapshots, hf.compute_eq_of_singleVersion hg hsingle hdigest hsnapshots {} {}⟩

/-- The keys that an index has lost from one version to the next are taken for those that it has
gained: both filters read the same two versions, and which of them is subtracted is told by neither
the digest nor the snapshots. -/
theorem not_compute_eq_two_versions :
    ¬∀ (C : Contents) (f g : Formula), f.Constructed C → g.Constructed C → f.digest = g.digest →
      f.snapshotsDigest = g.snapshotsDigest → ∀ m m', (f.compute m).1 = (g.compute m').1 := by
  intro hall
  let old := shared 0 1 {}
  let new := shared 0 2 { fresh := 1 }
  let lost := (without new old { fresh := 2 }).1
  let gained := (without old new { fresh := 3 }).1
  have hold : old.Constructed sharedContents := constructed_shared 0 1 _
  have hnew : new.Constructed sharedContents := constructed_shared 0 2 _
  have hsnapshots : lost.snapshotsDigest = gained.snapshotsDigest :=
    congrArg Digest.unordered (compositeSnapshots_eq_of_perm (.swap old new []))
  have hsame : lost.result = gained.result := hall sharedContents lost gained
    (.without hnew hold _) (.without hold hnew _) rfl hsnapshots {} {}
  have hlost : 1 ∈ lost.result := by
    have hresult : lost.result = (CandidateSet.ofKeys [1, 2]).diff (.ofKeys [2, 3]) := rfl
    simp [hresult]
  have hgained : ¬1 ∈ gained.result := by
    have hresult : gained.result = (CandidateSet.ofKeys [2, 3]).diff (.ofKeys [1, 2]) := rfl
    simp [hresult]
  exact hgained (hsame ▸ hlost)

end Formula

/-! ## Counts of facets -/

namespace FacetCount

/-- A count has the same digest and reads the same snapshots, in whatever order its buckets are
listed. -/
theorem digests_eq_of_perm (filter : Formula) {bs bs' : List FacetBucket} (h : bs.Perm bs')
    (m m' : Memory) :
    (ofFilter filter bs m).1.digest = (ofFilter filter bs' m').1.digest
      ∧ (ofFilter filter bs m).1.snapshotsDigest = (ofFilter filter bs' m').1.snapshotsDigest := by
  have hsorted : (ofFilter filter bs m).1.buckets.Perm (ofFilter filter bs' m').1.buckets :=
    (buckets_ofFilter_perm filter bs m).trans
      (h.trans (buckets_ofFilter_perm filter bs' m').symm)
  have hparts := Digest.unorderedPart_eq_iff.2
    (hsorted.map fun b => Digest.ofList [.word b.facet, .word b.entities.id])
  constructor
  · exact congrArg (fun parts => Digest.tagged 0x20 (filter.digest :: parts)) hparts
  · exact Digest.unordered_eq_iff.2 ((hsorted.map _).append_left filter.snapshots)

/-- Counts over one filter with the same digest that read the same snapshots have the same result,
where no index is counted at two versions and no facet over two indexes. -/
theorem compute_eq_of_facets (filter : Formula) {bs bs' : List FacetBucket}
    (hbs : ∀ b ∈ bs, b.entities.keys = C.keys b.entities.id b.entities.version)
    (hbs' : ∀ b ∈ bs', b.entities.keys = C.keys b.entities.id b.entities.version)
    (hsingle : SingleVersion (bs.map (·.entities.digest)))
    (hindex : ∀ b ∈ bs, ∀ b' ∈ bs, b.facet = b'.facet → b.entities.id = b'.entities.id)
    (m m' : Memory) (hdigest : (ofFilter filter bs m).1.digest = (ofFilter filter bs' m').1.digest)
    (hsnapshots :
      (ofFilter filter bs m).1.snapshotsDigest = (ofFilter filter bs' m').1.snapshotsDigest)
    (μ μ' : Memory) :
    ((ofFilter filter bs m).1.compute μ).1 = ((ofFilter filter bs' m').1.compute μ').1 := by
  have hperm := buckets_ofFilter_perm filter bs m
  have hperm' := buckets_ofFilter_perm filter bs' m'
  have hparts := Digest.unorderedPart_eq_iff.1 (List.cons.inj (Digest.tagged_inj.1 hdigest).2).2
  -- The filter is the same, so the buckets read the same snapshots.
  have hread := (List.perm_append_left_iff filter.snapshots).1
    (Digest.unordered_eq_iff.1 hsnapshots)
  obtain ⟨versions, hv⟩ := hsingle.exists_readsAt
  have hv := hv.mono fun x hx => (hperm.map (·.entities.digest)).mem_iff.1 hx
  have hv' := hv.mono fun x hx => hread.mem_iff.2 hx
  exact summarize_eq (fun b hb => hbs b (hperm.mem_iff.1 hb))
    (fun b hb => hbs' b (hperm'.mem_iff.1 hb)) hv hv' (buckets_ofFilter_sorted filter bs m)
    (buckets_ofFilter_sorted filter bs' m')
    (fun b hb b' hb' => hindex b (hperm.mem_iff.1 hb) b' (hperm.mem_iff.1 hb')) hparts _

/-- A bucket over one of the shared indexes. -/
def sharedBucket (facet i : ℕ) : FacetBucket := ⟨facet, sharedSnapshot i 1⟩

/-- Counts over index `1`, of buckets that are in the order of their facets. -/
theorem compute_sharedBucket {bs : List FacetBucket} (hsorted : bs.Pairwise (·.facet ≤ ·.facet))
    (m μ : Memory) : ((ofFilter (Formula.shared 1 1 m) bs m).1.compute μ).1
      = ⟨bs.map fun b => (b.facet, ((CandidateSet.ofKeys [2, 3]).inter b.entities.keys).size)⟩ := by
  have hbuckets : (ofFilter (Formula.shared 1 1 m) bs m).1.buckets = bs :=
    List.mergeSort_of_pairwise (hsorted.imp decide_eq_true)
  rw [compute_fst, result_ofFilter, hbuckets]
  rfl

/-- Index `1` has two keys, and shares one of them with index `2`. -/
theorem size_inter_shared :
    ((CandidateSet.ofKeys [2, 3]).inter (sharedSnapshot 1 1).keys).size = 2
      ∧ ((CandidateSet.ofKeys [2, 3]).inter (sharedSnapshot 2 1).keys).size = 1 := by
  have hboth : (CandidateSet.ofKeys [2, 3]).inter (sharedSnapshot 1 1).keys = .ofKeys [2, 3] := by
    rw [CandidateSet.ext_iff_mem]
    simp [sharedSnapshot, sharedContents]
  have hone : (CandidateSet.ofKeys [2, 3]).inter (sharedSnapshot 2 1).keys = .ofKeys [3] := by
    rw [CandidateSet.ext_iff_mem]
    intro k
    simp only [sharedSnapshot, sharedContents, CandidateSet.mem_inter, CandidateSet.mem_ofKeys,
      List.mem_cons, List.not_mem_nil, or_false]
    omega
  rw [hboth, hone]
  exact ⟨by cbv, by cbv⟩

/-- A facet may be listed twice over one index. -/
theorem compute_eq_of_facets_listed_twice :
    let filter := Formula.shared 1 1 {}
    let bs := [sharedBucket 7 1, sharedBucket 3 2, sharedBucket 7 1]
    let bs' := [sharedBucket 3 2, sharedBucket 7 1, sharedBucket 7 1]
    ((ofFilter filter bs {}).1.compute {}).1 = ((ofFilter filter bs' {}).1.compute {}).1 := by
  intro filter bs bs'
  obtain ⟨hdigest, hsnapshots⟩ := digests_eq_of_perm filter (.swap _ _ _ : bs.Perm bs') {} {}
  have hsingle : SingleVersion (bs.map (·.entities.digest)) := by
    refine .of_forall_eq (v := 1) fun i w h => ?_
    simp only [bs, sharedBucket, sharedSnapshot, IndexSnapshot.digest, List.map_cons, List.map_nil,
      List.mem_cons, List.not_mem_nil, or_false, snapshotDigest_inj] at h
    omega
  refine compute_eq_of_facets (C := sharedContents) filter ?_ ?_ hsingle ?_ {} {} hdigest
    hsnapshots {} {}
  · simp [bs, sharedBucket, sharedSnapshot]
  · simp [sharedBucket, sharedSnapshot]
  · simp [bs, sharedBucket, sharedSnapshot]

/-- Of two counts of one facet the first is given, and which is the first is told by neither the
digest nor the snapshots. -/
theorem not_compute_eq_two_indexes :
    ¬∀ (C : Contents) (filter : Formula) (bs bs' : List FacetBucket) (m m' : Memory),
      filter.Constructed C → (∀ b ∈ bs, b.entities.keys = C.keys b.entities.id b.entities.version) →
      (∀ b ∈ bs', b.entities.keys = C.keys b.entities.id b.entities.version) →
      (ofFilter filter bs m).1.digest = (ofFilter filter bs' m').1.digest →
      (ofFilter filter bs m).1.snapshotsDigest = (ofFilter filter bs' m').1.snapshotsDigest →
      ∀ μ μ' facet, ((ofFilter filter bs m).1.compute μ).1.countOf facet
        = ((ofFilter filter bs' m').1.compute μ').1.countOf facet := by
  intro hall
  let filter := Formula.shared 1 1 {}
  let bs := [sharedBucket 7 1, sharedBucket 7 2]
  let bs' := [sharedBucket 7 2, sharedBucket 7 1]
  obtain ⟨hdigest, hsnapshots⟩ := digests_eq_of_perm filter (.swap _ _ [] : bs.Perm bs') {} {}
  have hsame := hall sharedContents filter bs bs' {} {} (.ofIndex rfl _)
    (by simp [bs, sharedBucket, sharedSnapshot]) (by simp [bs', sharedBucket, sharedSnapshot])
    hdigest hsnapshots {} {} 7
  have hsorted : bs.Pairwise (·.facet ≤ ·.facet) := by simp [bs, sharedBucket]
  have hsorted' : bs'.Pairwise (·.facet ≤ ·.facet) := by simp [bs', sharedBucket]
  obtain ⟨htwo, hone⟩ := size_inter_shared
  rw [compute_sharedBucket hsorted, compute_sharedBucket hsorted'] at hsame
  simp [bs, bs', sharedBucket, FacetSummary.countOf_cons, htwo, hone] at hsame

end FacetCount

/-! ## Merged orders -/

namespace MergedRecords

/-- An interleaved order has the same digest and reads the same snapshots, in whatever order its
providers are listed. -/
theorem digests_eq_of_perm (direction : Direction) {ps qs : List RecordProvider} (h : ps.Perm qs)
    (m m' : Memory) :
    (ofProviders ps .interleave direction m).1.digest
        = (ofProviders qs .interleave direction m').1.digest
      ∧ (ofProviders ps .interleave direction m).1.snapshotsDigest
        = (ofProviders qs .interleave direction m').1.snapshotsDigest := by
  have hparts := Digest.unorderedPart_eq_iff.2 (h.map fun p => Digest.word p.id)
  constructor
  · exact congrArg (fun parts => Digest.tagged 0x30
      (.word MergeMode.interleave.tag :: .word direction.tag :: parts)) hparts
  · exact Digest.unordered_eq_iff.2 (h.map RecordProvider.digest)

/-- Orders with the same digest that read the same snapshots list the same keys, where the digests
settle the order. -/
theorem compute_eq_of_settled {mode mode' : MergeMode} {direction direction' : Direction}
    {ps qs : List RecordProvider} (hps : ∀ p ∈ ps, p.records = C.records p.id p.version)
    (hqs : ∀ q ∈ qs, q.records = C.records q.id q.version)
    (hsorted : ∀ p ∈ ps, p.records.Pairwise fun a b => RecordProvider.inOrder a b)
    (hsettled : mode.Settled direction ps) (m m' : Memory)
    (hdigest : (ofProviders ps mode direction m).1.digest
      = (ofProviders qs mode' direction' m').1.digest)
    (hsnapshots : (ofProviders ps mode direction m).1.snapshotsDigest
      = (ofProviders qs mode' direction' m').1.snapshotsDigest) (μ μ' : Memory) :
    ((ofProviders ps mode direction m).1.compute μ).1
      = ((ofProviders qs mode' direction' m').1.compute μ').1 := by
  rw [digest_ofProviders, digest_ofProviders, Digest.tagged_inj] at hdigest
  exact mergedKeys_eq (r := (ofProviders ps mode direction m).1)
    (t := (ofProviders qs mode' direction' m').1) hps hqs hsorted hsettled hdigest.2
    (Digest.unordered_eq_iff.1 hsnapshots)

/-- A partition of the shared contents. -/
def sharedProvider (i : IndexId) : RecordProvider := ⟨i, 1, sharedContents.records i 1⟩

/-- Its records are in order. -/
theorem sorted_sharedProvider (i : IndexId) :
    (sharedProvider i).records.Pairwise fun a b => RecordProvider.inOrder a b := by
  match i with
  | 0 | 1 | _ + 2 => simp [sharedProvider, sharedContents, RecordProvider.inOrder]

/-- Two partitions that share the first of their records are interleaved alike whichever is listed
first. -/
theorem compute_eq_of_settled_swapped :
    let ps := [sharedProvider 0, sharedProvider 2]
    let qs := [sharedProvider 2, sharedProvider 0]
    let r := (ofProviders ps .interleave .descending {}).1
    let t := (ofProviders qs .interleave .descending {}).1
    (r.compute {}).1 = (t.compute {}).1 ∧ (t.compute {}).1 = [2, 1, 3] := by
  intro ps qs r t
  have hperm : ps.Perm qs := .swap _ _ []
  obtain ⟨hdigest, hsnapshots⟩ := digests_eq_of_perm .descending hperm {} {}
  have hrecords : ∀ p ∈ ps, p.records = sharedContents.records p.id p.version := by
    simp [ps, sharedProvider]
  have hrecords' : ∀ p ∈ qs, p.records = sharedContents.records p.id p.version := by
    simp [qs, sharedProvider]
  have hsorted : ∀ p ∈ ps, p.records.Pairwise fun a b => RecordProvider.inOrder a b := by
    simp [ps, sorted_sharedProvider]
  have hsettled : MergeMode.interleave.Settled .descending ps := by
    simp [MergeMode.Settled, ps, sharedProvider, sharedContents]
  have hkeys : (t.compute {}).1 = [2, 1, 3] := by
    show mergedKeys .interleave .descending qs = [2, 1, 3]
    cbv
  exact ⟨compute_eq_of_settled hrecords hrecords' hsorted hsettled {} {} hdigest hsnapshots {} {},
    hkeys⟩

/-- Records of one value come with descending keys in descending order. So when two partitions share
one, it matters from which of them it is taken, and neither the digest nor the snapshots tell which
is listed first. -/
theorem not_compute_eq_shared_record :
    ¬∀ (C : Contents) (ps qs : List RecordProvider) (mode mode' : MergeMode)
      (direction direction' : Direction) (m m' : Memory),
      (∀ p ∈ ps, p.records = C.records p.id p.version) →
      (∀ q ∈ qs, q.records = C.records q.id q.version) →
      (∀ p ∈ ps, p.records.Pairwise fun a b => RecordProvider.inOrder a b) →
      (∀ q ∈ qs, q.records.Pairwise fun a b => RecordProvider.inOrder a b) →
      (ofProviders ps mode direction m).1.digest = (ofProviders qs mode' direction' m').1.digest →
      (ofProviders ps mode direction m).1.snapshotsDigest
        = (ofProviders qs mode' direction' m').1.snapshotsDigest →
      ∀ μ μ', ((ofProviders ps mode direction m).1.compute μ).1
        = ((ofProviders qs mode' direction' m').1.compute μ').1 := by
  intro hall
  let ps := [sharedProvider 0, sharedProvider 1]
  let qs := [sharedProvider 1, sharedProvider 0]
  have hperm : ps.Perm qs := .swap _ _ []
  obtain ⟨hdigest, hsnapshots⟩ := digests_eq_of_perm .descending hperm {} {}
  have hsame : mergedKeys .interleave .descending ps = mergedKeys .interleave .descending qs :=
    hall sharedContents ps qs .interleave .interleave .descending .descending {} {}
      (by simp [ps, sharedProvider]) (by simp [qs, sharedProvider])
      (by simp [ps, sorted_sharedProvider]) (by simp [qs, sorted_sharedProvider]) hdigest hsnapshots
      {} {}
  have hfirst : mergedKeys .interleave .descending ps = [3, 1, 2] := by cbv
  have hsecond : mergedKeys .interleave .descending qs = [3, 2, 1] := by cbv
  rw [hfirst, hsecond] at hsame
  exact absurd hsame (by decide)

end MergedRecords

end EntityQuery
