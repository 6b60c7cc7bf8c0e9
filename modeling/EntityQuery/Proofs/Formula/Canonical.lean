import EntityQuery.Proofs.Cache.Meaning

/-!
# The digest as a canonical form

Two filters are alike when they are the same tree, except for the order of the parts of conjunctions
and disjunctions at any depth, and for the versions at which indexes are read
(`Formula.Alike`). For filters that the constructors put together, being alike is having the same
digest (`Formula.digest_eq_iff_alike`): the tag of a digest tells the kind of the node, and what
follows the tag tells the parts, in any order where the order does not matter.

The versions are what the digest leaves out. Where filters that are alike read no index at two
snapshots, they read the same snapshots and have the same keys.
-/

namespace EntityQuery

/-- Where two lists agree in the values of their members up to the order, the members are paired
with members of the same value. -/
theorem exists_pairs_of_map_perm {α β γ : Type} {f : α → γ} {g : β → γ} {as : List α}
    {bs : List β} (h : (as.map f).Perm (bs.map g)) :
    ∃ pairs : List (α × β), pairs.map (·.1) = as ∧ (pairs.map (·.2)).Perm bs ∧
      ∀ p ∈ pairs, f p.1 = g p.2 := by
  induction as generalizing bs with
  | nil =>
    obtain rfl : bs = [] := List.map_eq_nil_iff.1 h.nil_eq.symm
    exact ⟨[], rfl, .refl _, nofun⟩
  | cons a as ih =>
    -- The first member is paired with some member, wherever it stands.
    obtain ⟨b, hb, hvalue⟩ := List.mem_map.1 (h.mem_iff.1 List.mem_cons_self)
    obtain ⟨front, back, rfl⟩ := List.mem_iff_append.1 hb
    have hrest : (as.map f).Perm ((front ++ back).map g) := by
      have hmiddle := h.trans (List.perm_middle.map g)
      rw [List.map_cons, List.map_cons, hvalue] at hmiddle
      exact hmiddle.cons_inv
    obtain ⟨pairs, has, hbs, hpairs⟩ := ih hrest
    refine ⟨(a, b) :: pairs, by rw [List.map_cons, has], ?_, ?_⟩
    · exact (hbs.cons b).trans List.perm_middle.symm
    · intro p hp
      rcases List.mem_cons.1 hp with rfl | hp
      · exact hvalue.symm
      · exact hpairs p hp

/-- Nothing comes from the cache, and the bounds of a predicate on amounts are signed words. -/
def Provenance.plain : Provenance where
  snapshot _ := True
  prices _ predicate := predicate.Bounded
  partless := True
  cached _ _ := False
  observer _ _ := False

namespace Formula

/-! ## Filters that are alike -/

/-- A filter that was put together by the constructors. The bounds of a predicate on amounts are
signed words. -/
def Assembled (f : Formula) : Prop := f.Made .plain

/-- Filters that are the same up to the order of the parts of conjunctions and disjunctions, and up
to what the indexes hold and at which versions. Parts of the one are paired with parts of the other
that are alike. -/
inductive Alike : Formula → Formula → Prop
  /-- No key. -/
  | empty (p q : Profile) : Alike (.empty p) (.empty q)
  /-- The same listed keys. -/
  | constant (p q : Profile) (keys : CandidateSet) : Alike (.constant p keys) (.constant q keys)
  /-- Snapshots of one index. -/
  | index (p q : Profile) {s t : IndexSnapshot} (h : s.id = t.id) :
    Alike (.index p s) (.index q t)
  /-- Conjunctions of parts that are alike, up to the order. -/
  | and (p q : Profile) {children children' : List Formula} {pairs : List (Formula × Formula)}
    (hleft : pairs.map (·.1) = children) (hright : (pairs.map (·.2)).Perm children')
    (h : ∀ c ∈ pairs, Alike c.1 c.2) : Alike (.and p children) (.and q children')
  /-- Disjunctions of parts that are alike, up to the order. -/
  | or (p q : Profile) {children children' : List Formula} {pairs : List (Formula × Formula)}
    (hleft : pairs.map (·.1) = children) (hright : (pairs.map (·.2)).Perm children')
    (h : ∀ c ∈ pairs, Alike c.1 c.2) : Alike (.or p children) (.or q children')
  /-- Differences of filters that are alike. -/
  | not (p q : Profile) {f f' g g' : Formula} (hf : Alike f f') (hg : Alike g g') :
    Alike (.not p f g) (.not q f' g')
  /-- Price filters with the same predicate over one price list. -/
  | price (p q : Profile) {source source' : Formula} {prices prices' : PriceIndex}
    (h : Alike source source') (hprices : prices.id = prices'.id) (predicate : AmountPredicate) :
    Alike (.price p source prices predicate) (.price q source' prices' predicate)

/-- Whether a filter reads an index snapshot. -/
inductive ReadsIndex : Formula → IndexSnapshot → Prop
  /-- The filter of the keys of a snapshot reads it. -/
  | here (p : Profile) (s : IndexSnapshot) : ReadsIndex (.index p s) s
  /-- What a part reads, the whole reads. -/
  | part {f c : Formula} {s : IndexSnapshot} (hc : c ∈ f.children) (h : ReadsIndex c s) :
    ReadsIndex f s

/-- Whether a filter reads the prices of a price list. -/
inductive ReadsPrices : Formula → PriceIndex → Prop
  /-- A price filter reads the prices that it tests. -/
  | here (p : Profile) (source : Formula) (prices : PriceIndex) (predicate : AmountPredicate) :
    ReadsPrices (.price p source prices predicate) prices
  /-- What a part reads, the whole reads. -/
  | part {f c : Formula} {prices : PriceIndex} (hc : c ∈ f.children) (h : ReadsPrices c prices) :
    ReadsPrices f prices

/-- Whether no index is read at two snapshots by two filters. -/
structure SharesSnapshots (f g : Formula) : Prop where
  /-- An index that both read is read at one snapshot. -/
  index : ∀ s t, f.ReadsIndex s → g.ReadsIndex t → s.id = t.id → s = t
  /-- So is a price list. -/
  prices : ∀ p q, f.ReadsPrices p → g.ReadsPrices q → p.id = q.id → p = q

/-- Filters share the snapshots that their parts share. -/
theorem SharesSnapshots.part {f g c d : Formula} (h : f.SharesSnapshots g) (hc : c ∈ f.children)
    (hd : d ∈ g.children) : c.SharesSnapshots d where
  index s t hs ht := h.index s t (.part hc hs) (.part hd ht)
  prices p q hp hq := h.prices p q (.part hc hp) (.part hd hq)

/-- The filter of the keys of a snapshot reads nothing else. -/
theorem ReadsIndex.eq_of_index {p : Profile} {s t : IndexSnapshot} (h : (index p s).ReadsIndex t) :
    t = s := by
  cases h with
  | here => rfl
  | part hc => exact absurd hc List.not_mem_nil

/-- Of indexes, a composite node reads nothing but what its parts read. -/
theorem ReadsIndex.of_parts {P : IndexSnapshot → Prop} {f : Formula} (hf : f.isCacheable = true)
    (hparts : ∀ c ∈ f.children, ∀ s, c.ReadsIndex s → P s) (s : IndexSnapshot)
    (h : f.ReadsIndex s) : P s := by
  cases h with
  | here p => exact absurd hf nofun
  | part hc h => exact hparts _ hc s h

/-- Of prices, a node reads nothing but what it tests and what its parts read. -/
theorem ReadsPrices.of_parts {P : PriceIndex → Prop} {f : Formula}
    (hhere : ∀ p source prices predicate, f = .price p source prices predicate → P prices)
    (hparts : ∀ c ∈ f.children, ∀ prices, c.ReadsPrices prices → P prices) (prices : PriceIndex)
    (h : f.ReadsPrices prices) : P prices := by
  cases h with
  | here p source _ predicate => exact hhere p source prices predicate rfl
  | part hc h => exact hparts _ hc prices h

/-! ## What the constructors make -/

/-- A filter that is built and holds nothing from the cache. -/
def Plain (f : Formula) : Prop := f.Built .plain

/-- The constructors make plain filters. -/
theorem Assembled.plain {f : Formula} (h : f.Assembled) : f.Plain := h.built

/-- The tag of the kind of a node in digests. What comes from the cache has none of its own. -/
def tag : Formula → ℕ
  | empty _ => 0x01
  | constant _ _ => 0x02
  | index _ _ => 0x03
  | and _ _ => 0x04
  | or _ _ => 0x05
  | not _ _ _ => 0x06
  | price _ _ _ _ => 0x07
  | cached _ _ | observed _ _ _ _ => 0

/-- The digest of a plain filter begins with the tag of its kind. -/
theorem Plain.exists_tagged {f : Formula} (h : f.Plain) :
    ∃ parts, f.digest = .tagged f.tag parts := by
  cases h with
  | empty | constant | index | and | or | not | price => exact ⟨_, rfl⟩
  | cached _ _ hcached => exact absurd hcached not_false
  | observed _ _ _ hobserver => exact absurd hobserver not_false

/-- Plain filters with the same digest are of one kind. -/
theorem Plain.tag_eq {f g : Formula} (hf : f.Plain) (hg : g.Plain) (h : f.digest = g.digest) :
    f.tag = g.tag := by
  obtain ⟨parts, hparts⟩ := hf.exists_tagged
  obtain ⟨parts', hparts'⟩ := hg.exists_tagged
  rw [hparts, hparts'] at h
  exact (Digest.tagged_inj.1 h).1

/-! ## The digest tells filters apart that are not alike -/

/-- Where parts have the same digests up to the order, and the digest tells them apart, they are
paired with parts that are alike. -/
theorem exists_alike_pairs {children children' : List Formula}
    (h : (children.map digest).Perm (children'.map digest))
    (halike : ∀ c ∈ children, ∀ d ∈ children', c.digest = d.digest → c.Alike d) :
    ∃ pairs : List (Formula × Formula), pairs.map (·.1) = children ∧
      (pairs.map (·.2)).Perm children' ∧ ∀ c ∈ pairs, c.1.Alike c.2 := by
  obtain ⟨pairs, rfl, hright, hpairs⟩ := exists_pairs_of_map_perm h
  refine ⟨pairs, rfl, hright, fun c hc => ?_⟩
  have hmem : c.2 ∈ children' := hright.mem_iff.1 (List.mem_map_of_mem hc)
  exact halike c.1 (List.mem_map_of_mem hc) c.2 hmem (hpairs c hc)

namespace Plain

/-- Filters with the same digest are alike. -/
theorem alike_of_digest_eq {f g : Formula} (hf : f.Plain) (hg : g.Plain)
    (h : f.digest = g.digest) : f.Alike g := by
  -- The tags of the two digests agree, so both filters are of one kind.
  induction hf generalizing g with
  | empty id =>
    have htag := tag_eq (.empty id) hg h
    cases hg with
    | empty id' => exact .empty _ _
    | _ => exact absurd htag nofun
  | constant id keys =>
    have htag := tag_eq (.constant id keys) hg h
    cases hg with
    | constant id' keys' =>
      have hwords := Digest.orderedPart_inj.1 (Digest.tagged_inj.1 h).2
      have hkeys : keys.keys = keys'.keys :=
        List.map_injective_iff.2 (fun _ _ => Digest.word.inj) hwords
      obtain rfl : keys = keys' := CandidateSet.ext_iff_mem.2 fun k => by
        rw [CandidateSet.mem_iff, CandidateSet.mem_iff, hkeys]
      exact .constant _ _ keys
    | _ => exact absurd htag nofun
  | index id hs =>
    have htag := tag_eq (.index id hs) hg h
    cases hg with
    | index id' hs' =>
      obtain ⟨hword, -⟩ := List.cons.inj (Digest.tagged_inj.1 h).2
      exact .index _ _ (Digest.word.inj hword)
    | _ => exact absurd htag nofun
  | and id hne hchildren ih =>
    have htag := tag_eq (.and id hne hchildren) hg h
    cases hg with
    | and id' _ hchildren' =>
      have hperm := Digest.unorderedPart_eq_iff.1 (Digest.tagged_inj.1 h).2
      obtain ⟨pairs, hleft, hright, hpairs⟩ :=
        exists_alike_pairs hperm fun c hc d hd => ih c hc (hchildren' d hd)
      exact .and _ _ hleft hright hpairs
    | _ => exact absurd htag nofun
  | or id hne hchildren ih =>
    have htag := tag_eq (.or id hne hchildren) hg h
    cases hg with
    | or id' _ hchildren' =>
      have hperm := Digest.unorderedPart_eq_iff.1 (Digest.tagged_inj.1 h).2
      obtain ⟨pairs, hleft, hright, hpairs⟩ :=
        exists_alike_pairs hperm fun c hc d hd => ih c hc (hchildren' d hd)
      exact .or _ _ hleft hright hpairs
    | _ => exact absurd htag nofun
  | not id hsubtracted hsuperset ihf ihg =>
    have htag := tag_eq (.not id hsubtracted hsuperset) hg h
    cases hg with
    | not id' hf' hg' =>
      have hparts := Digest.orderedPart_inj.1 (Digest.tagged_inj.1 h).2
      obtain ⟨hsubtracted, hrest⟩ := List.cons.inj hparts
      obtain ⟨hsuperset, -⟩ := List.cons.inj hrest
      exact .not _ _ (ihf hf' hsubtracted) (ihg hg' hsuperset)
    | _ => exact absurd htag nofun
  | price id hsource hbounded ih =>
    have htag := tag_eq (.price id hsource hbounded) hg h
    cases hg with
    | price id' hsource' hbounded' =>
      obtain ⟨hsource, hrest⟩ := List.cons.inj (Digest.tagged_inj.1 h).2
      obtain ⟨hprices, hrest⟩ := List.cons.inj hrest
      obtain ⟨hpredicate, -⟩ := List.cons.inj hrest
      obtain rfl := AmountPredicate.digest_inj hbounded hbounded' hpredicate
      exact .price _ _ (ih hsource' hsource) (Digest.word.inj hprices) _
    | _ => exact absurd htag nofun
  | cached _ _ hcached => exact absurd hcached not_false
  | observed _ _ _ hobserver => exact absurd hobserver not_false

end Plain

/-! ## Filters that are alike agree in what they carry -/

variable {γ : Type} {pairs : List (Formula × Formula)} {children children' : List Formula}

/-- What the parts of two filters agree in, they agree in together, up to the order. -/
theorem map_perm_of_pairs (value : Formula → γ) (hleft : pairs.map (·.1) = children)
    (hright : (pairs.map (·.2)).Perm children')
    (h : ∀ c ∈ pairs, c.1 ∈ children → c.2 ∈ children' → value c.1 = value c.2) :
    (children.map value).Perm (children'.map value) := by
  have hvalues : children.map value = (pairs.map (·.2)).map value := by
    subst hleft
    rw [List.map_map, List.map_map]
    exact List.map_congr_left fun c hc =>
      h c hc (List.mem_map_of_mem hc) (hright.mem_iff.1 (List.mem_map_of_mem hc))
  rw [hvalues]
  exact hright.map value

/-- Composite nodes read the same snapshots when their parts do. -/
theorem compositeSnapshots_eq_of_map_perm
    (h : (children.map snapshots).Perm (children'.map snapshots)) :
    compositeSnapshots children = compositeSnapshots children' := by
  rw [compositeSnapshots, compositeSnapshots, List.flatMap_def, List.flatMap_def]
  exact Digest.sortDistinct_eq_of_perm h.flatten

/-- Composite nodes read the same snapshots where the parts that are paired do, and the results of
their parts are the same then, up to the order. -/
theorem snapshots_results_of_pairs (hleft : pairs.map (·.1) = children)
    (hright : (pairs.map (·.2)).Perm children')
    (h : ∀ c ∈ pairs, c.1 ∈ children → c.2 ∈ children' →
      c.1.snapshots = c.2.snapshots ∧ c.1.result = c.2.result) :
    compositeSnapshots children = compositeSnapshots children' ∧
      (children.map result).Perm (children'.map result) :=
  ⟨compositeSnapshots_eq_of_map_perm (map_perm_of_pairs snapshots hleft hright
      fun c hc hmem hmem' => (h c hc hmem hmem').1),
    map_perm_of_pairs result hleft hright fun c hc hmem hmem' => (h c hc hmem hmem').2⟩

namespace Alike

/-- Filters that are alike have the same digest. -/
theorem digest_eq {f g : Formula} (h : f.Alike g) (hf : f.Plain) (hg : g.Plain) :
    f.digest = g.digest := by
  induction h with
  | empty p q =>
    cases hf
    cases hg
    rfl
  | constant p q keys =>
    cases hf
    cases hg
    rfl
  | index p q hid =>
    cases hf
    cases hg
    exact congrArg (fun i => Digest.tagged 0x03 [.word i]) hid
  | @and p q children children' pairs hleft hright _ ih =>
    cases hf with | and id _ hchildren => cases hg with | and id' _ hchildren' =>
    have hdigests := map_perm_of_pairs digest hleft hright fun c hc hmem hmem' =>
      ih c hc (hchildren _ hmem) (hchildren' _ hmem')
    exact congrArg (Digest.tagged 0x04) (Digest.unorderedPart_eq_iff.2 hdigests)
  | @or p q children children' pairs hleft hright _ ih =>
    cases hf with | or id _ hchildren => cases hg with | or id' _ hchildren' =>
    have hdigests := map_perm_of_pairs digest hleft hright fun c hc hmem hmem' =>
      ih c hc (hchildren _ hmem) (hchildren' _ hmem')
    exact congrArg (Digest.tagged 0x05) (Digest.unorderedPart_eq_iff.2 hdigests)
  | @not p q f f' g g' _ _ ihf ihg =>
    cases hf with | not id hf hg₁ => cases hg with | not id' hf' hg₂ =>
    have hparts : [f.digest, g.digest] = [f'.digest, g'.digest] := by
      rw [ihf hf hf', ihg hg₁ hg₂]
    exact congrArg (fun parts => Digest.tagged 0x06 (Digest.orderedPart parts)) hparts
  | @price p q source source' prices prices' _ hprices predicate ih =>
    cases hf with | price id hsource _ => cases hg with | price id' hsource' _ =>
    have hparts : [source.digest, .word prices.id, predicate.digest]
        = [source'.digest, .word prices'.id, predicate.digest] := by
      rw [ih hsource hsource', hprices]
    exact congrArg (Digest.tagged 0x07) hparts

/-- Filters that are alike and share the snapshots of all indexes read the same snapshots and have
the same result. -/
theorem snapshots_result_eq {f g : Formula} (h : f.Alike g) (hf : f.Plain) (hg : g.Plain)
    (hshared : f.SharesSnapshots g) : f.snapshots = g.snapshots ∧ f.result = g.result := by
  induction h with
  | empty p q =>
    cases hf
    cases hg
    exact ⟨rfl, rfl⟩
  | constant p q keys =>
    cases hf
    cases hg
    exact ⟨rfl, rfl⟩
  | index p q hid =>
    obtain rfl := hshared.index _ _ (.here _ _) (.here _ _) hid
    cases hf
    cases hg
    exact ⟨rfl, rfl⟩
  | @and p q children children' pairs hleft hright _ ih =>
    cases hf with | and id _ hchildren => cases hg with | and id' _ hchildren' =>
    obtain ⟨hsnapshots, hresults⟩ :=
      snapshots_results_of_pairs hleft hright fun c hc hmem hmem' =>
        ih c hc (hchildren _ hmem) (hchildren' _ hmem') (hshared.part hmem hmem')
    exact ⟨hsnapshots, CandidateSet.interAll_congr fun _ => hresults.mem_iff⟩
  | @or p q children children' pairs hleft hright _ ih =>
    cases hf with | or id _ hchildren => cases hg with | or id' _ hchildren' =>
    obtain ⟨hsnapshots, hresults⟩ :=
      snapshots_results_of_pairs hleft hright fun c hc hmem hmem' =>
        ih c hc (hchildren _ hmem) (hchildren' _ hmem') (hshared.part hmem hmem')
    exact ⟨hsnapshots, CandidateSet.unionAll_congr fun _ => hresults.mem_iff⟩
  | @not p q f f' g g' _ _ ihf ihg =>
    cases hf with | not id hf hg₁ => cases hg with | not id' hf' hg₂ =>
    obtain ⟨hsnapshots, hresult⟩ :=
      ihf hf hf' (hshared.part List.mem_cons_self List.mem_cons_self)
    obtain ⟨hsnapshots', hresult'⟩ := ihg hg₁ hg₂
      (hshared.part (List.mem_cons_of_mem _ List.mem_cons_self)
        (List.mem_cons_of_mem _ List.mem_cons_self))
    constructor
    · refine compositeSnapshots_eq_of_map_perm (.of_eq ?_)
      rw [List.map_cons, List.map_cons, List.map_cons, List.map_cons, hsnapshots, hsnapshots']
    · rw [result_not, result_not, hresult, hresult']
  | @price p q source source' prices prices' _ hprices predicate ih =>
    obtain rfl := hshared.prices _ _ (.here _ _ _ _) (.here _ _ _ _) hprices
    cases hf with | price id hsource _ => cases hg with | price id' hsource' _ =>
    obtain ⟨hsnapshots, hresult⟩ :=
      ih hsource hsource' (hshared.part List.mem_cons_self List.mem_cons_self)
    constructor
    · exact congrArg (fun s => Digest.sortDistinct (s ++ [prices.digest])) hsnapshots
    · rw [result_price, result_price, hresult]

end Alike

/-- Filters that the constructors put together have the same digest exactly when they are alike.
Where they also share the snapshots of all indexes, they cannot be told apart by the versions that
they read, and they have the same keys. -/
theorem digest_eq_iff_alike {f g : Formula} (hf : f.Assembled) (hg : g.Assembled) :
    (f.digest = g.digest ↔ f.Alike g) ∧
      (f.Alike g → f.SharesSnapshots g → f.snapshotsDigest = g.snapshotsDigest ∧
        ∀ m m', (f.compute m).1 = (g.compute m').1) := by
  refine ⟨⟨hf.plain.alike_of_digest_eq hg.plain, fun h => h.digest_eq hf.plain hg.plain⟩, ?_⟩
  intro h hshared
  obtain ⟨hsnapshots, hresult⟩ := h.snapshots_result_eq hf.plain hg.plain hshared
  exact ⟨congrArg Digest.unordered hsnapshots, fun _ _ => hresult⟩

/-- Parts may be exchanged at any depth, here in a conjunction and in a disjunction that is one of
its parts. -/
theorem digest_eq_iff_alike_exchanged :
    let a := (ofIndex (.ofKeys 1 [3, 4]) {}).1
    let b := (pricedBy a (.ofRecords 2 2 [⟨4, 1, 100, 120⟩]) .all { fresh := 1 }).1
    let f := (allOf [a, (anyOf [a, b] { fresh := 2 }).1] { fresh := 3 }).1
    let g := (allOf [(anyOf [b, a] { fresh := 4 }).1, a] { fresh := 5 }).1
    f.digest = g.digest ∧ f.snapshotsDigest = g.snapshotsDigest
      ∧ (f.compute {}).1 = (g.compute {}).1 := by
  intro a b f g
  have ha : a.Assembled := .ofIndex trivial _
  have hall : Provenance.plain.prices (.ofRecords 2 2 [⟨4, 1, 100, 120⟩]) .all := trivial
  have hb : b.Assembled := .priced (m := { fresh := 1 }) ha hall rfl
  have hpair {P : Formula → Prop} {c d : Formula} (hc : P c) (hd : P d) : ∀ x ∈ [c, d], P x :=
    List.forall_mem_cons.2 ⟨hc, List.forall_mem_singleton.2 hd⟩
  have hf : f.Assembled := .allOf (hpair ha (.anyOf (hpair ha hb) _)) _
  have hg : g.Assembled := .allOf (hpair (.anyOf (hpair hb ha) _) ha) _
  have hself : a.Alike a := .index _ _ rfl
  have hswap {c c' d d' : Formula} (h : c.Alike c') (h' : d.Alike d') :
      ∀ x ∈ [(c, c'), (d, d')], x.1.Alike x.2 := by
    intro x hx
    rcases List.mem_pair.1 hx with rfl | rfl
    · exact h
    · exact h'
  have halike : f.Alike g := by
    have hparts : ([(a, a), (b, b)].map (·.2)).Perm [b, a] := .swap b a []
    have hor : (anyOf [a, b] { fresh := 2 }).1.Alike (anyOf [b, a] { fresh := 4 }).1 :=
      .or _ _ rfl hparts (hswap hself (.price _ _ hself rfl .all))
    have hparts' : ([(a, a), ((anyOf [a, b] { fresh := 2 }).1, (anyOf [b, a] { fresh := 4 }).1)].map
        (·.2)).Perm [(anyOf [b, a] { fresh := 4 }).1, a] := .swap _ _ []
    exact .and _ _ rfl hparts' (hswap hself hor)
  -- The only leaf is the index snapshot, and the only prices are those of the price filter.
  have hindex : (∀ s, f.ReadsIndex s → s = .ofKeys 1 [3, 4])
      ∧ ∀ s, g.ReadsIndex s → s = .ofKeys 1 [3, 4] := by
    have ha : ∀ s, a.ReadsIndex s → s = .ofKeys 1 [3, 4] := fun s hs => hs.eq_of_index
    have hb := ReadsIndex.of_parts (f := b) rfl (List.forall_mem_singleton.2 ha)
    have hor := ReadsIndex.of_parts (f := (anyOf [a, b] { fresh := 2 }).1) rfl (hpair ha hb)
    have hor' := ReadsIndex.of_parts (f := (anyOf [b, a] { fresh := 4 }).1) rfl (hpair hb ha)
    exact ⟨ReadsIndex.of_parts rfl (hpair ha hor), ReadsIndex.of_parts rfl (hpair hor' ha)⟩
  have hprices : (∀ p, f.ReadsPrices p → p = .ofRecords 2 2 [⟨4, 1, 100, 120⟩])
      ∧ ∀ p, g.ReadsPrices p → p = .ofRecords 2 2 [⟨4, 1, 100, 120⟩] := by
    have ha : ∀ p, a.ReadsPrices p → p = .ofRecords 2 2 [⟨4, 1, 100, 120⟩] :=
      ReadsPrices.of_parts nofun nofun
    have hb := ReadsPrices.of_parts (f := b) (fun p source prices predicate h =>
      (Formula.price.inj h).2.2.1.symm) (List.forall_mem_singleton.2 ha)
    have hor := ReadsPrices.of_parts (f := (anyOf [a, b] { fresh := 2 }).1) nofun (hpair ha hb)
    have hor' := ReadsPrices.of_parts (f := (anyOf [b, a] { fresh := 4 }).1) nofun (hpair hb ha)
    exact ⟨ReadsPrices.of_parts nofun (hpair ha hor), ReadsPrices.of_parts nofun (hpair hor' ha)⟩
  have hshared : f.SharesSnapshots g := by
    refine ⟨fun s t hs ht _ => ?_, fun p q hp hq _ => ?_⟩
    · rw [hindex.1 s hs, hindex.2 t ht]
    · rw [hprices.1 p hp, hprices.2 q hq]
  obtain ⟨hdigest, hsnapshots⟩ := digest_eq_iff_alike hf hg
  obtain ⟨hread, hkeys⟩ := hsnapshots halike hshared
  exact ⟨hdigest.2 halike, hread, hkeys {} {}⟩

end Formula

end EntityQuery
