import EntityQuery.Cache.Analysis
import EntityQuery.Proofs.Cache.Work

/-!
# Analysed computations

What the cache puts in the place of a computation may be given to the cache again, and it has the
same result (`Computation.StandsFor`). For filters this is an induction on the formula, because the
cache may stand in for any of its nodes, and observers may be put around any of them. What carries
the induction is that the nodes that are put in have the same digests and read the same snapshots
(`Formula.StandsFor`), so that the nodes above them carry what they carried before.
-/

namespace EntityQuery

variable {C : Contents}

/-! ## Filters -/

namespace Formula

/-- Whether one filter can take the place of another: nothing that the cache looks at, and nothing
that comes out, tells them apart. -/
structure StandsFor (C : Contents) (entries : Entries) (f g : Formula) : Prop
    extends SameIdentity f g where
  /-- The other filter is built as it should be. -/
  built : g.Built (C.provenanceIn entries)
  /-- It has the same result. -/
  result : g.result = f.result

namespace StandsFor

variable {old entries : Entries} {f g : Formula} {fs gs : List Formula}

/-- A filter can take its own place. -/
theorem refl (h : f.Built (C.provenanceIn entries)) : StandsFor C entries f f := ⟨.refl f, h, rfl⟩

/-- What can take the place of a filter can do so later. -/
theorem mono (hkeep : Entries.Keeps old entries) (h : StandsFor C old f g) :
    StandsFor C entries f g :=
  ⟨h.toSameIdentity, h.built.mono (Contents.provenanceIn_mono hkeep), h.result⟩

/-- Filters that take the places of others have their identities. -/
theorem sameIdentity (h : List.Forall₂ (StandsFor C entries) fs gs) :
    List.Forall₂ SameIdentity fs gs := h.imp fun _ _ hfg => hfg.toSameIdentity

/-- A conjunction of filters that take the places of others takes the place of their conjunction. -/
theorem and (id id' : NodeId) (h : List.Forall₂ (StandsFor C entries) fs gs) :
    StandsFor C entries (.and (andProfile id fs) fs) (.and (andProfile id' gs) gs) where
  toSameIdentity := .and id id' (sameIdentity h)
  built := .and id' (fun _ => trivial) (forall_of_forall₂ (fun _ _ h => h.built) h)
  result := by
    rw [result_and, result_and, map_eq_of_forall₂ Formula.result (fun _ _ h => h.result) h]

/-- So it is with disjunctions. -/
theorem or (id id' : NodeId) (h : List.Forall₂ (StandsFor C entries) fs gs) :
    StandsFor C entries (.or (orProfile id fs) fs) (.or (orProfile id' gs) gs) where
  toSameIdentity := .or id id' (sameIdentity h)
  built := .or id' (fun _ => trivial) (forall_of_forall₂ (fun _ _ h => h.built) h)
  result := by
    rw [result_or, result_or, map_eq_of_forall₂ Formula.result (fun _ _ h => h.result) h]

/-- So it is with differences. -/
theorem not (id id' : NodeId) {f' g' : Formula} (h : StandsFor C entries f g)
    (h' : StandsFor C entries f' g') :
    StandsFor C entries (.not (notProfile id f f') f f') (.not (notProfile id' g g') g g') where
  toSameIdentity := .not id id' h.toSameIdentity h'.toSameIdentity
  built := .not id' h.built h'.built
  result := by rw [result_not, result_not, h.result, h'.result]

/-- So it is with price filters. -/
theorem price (id id' : NodeId) {prices : PriceIndex} {predicate : AmountPredicate}
    (h : StandsFor C entries f g) (hp : (C.provenanceIn entries).prices prices predicate) :
    StandsFor C entries (.price (priceProfile id f prices predicate) f prices predicate)
      (.price (priceProfile id' g prices predicate) g prices predicate) where
  toSameIdentity := .price id id' h.toSameIdentity
  built := .price id' h.built hp
  result := by rw [result_price, result_price, h.result]

/-- The result of a filter takes its place. -/
theorem cached (id : NodeId) (h : f.Built (C.provenanceIn entries)) :
    StandsFor C entries f (.cached (cachedProfile id f f.result) f.result) :=
  ⟨⟨rfl, rfl⟩, .cached id h rfl, rfl⟩

/-- What takes the place of a filter does so when it is observed. -/
theorem observed (id : NodeId) {o : Observer} (cost : ℕ) (h : StandsFor C entries f g)
    (hsingle : SingleVersion f.snapshots) (ho : Entries.Follows entries o .filter f.digest) :
    StandsFor C entries f (.observed (observedProfile id g) g o cost) where
  toSameIdentity := ⟨h.digest, h.snapshots⟩
  built := by
    refine .observed id cost h.built ⟨?_, ?_⟩
    · rw [h.snapshots]
      exact hsingle
    · rw [h.digest]
      exact ho
  result := h.result

end StandsFor

end Formula

namespace Workspace

open Formula

variable {base : Entries} {f : Formula}

/-- A result is put in the place of a filter. -/
theorem gives_surrogate (hf : f.Built (C.provenanceIn base)) :
    Gives C base (liftM (f.surrogate f.result)) fun entries g => f.StandsFor C entries g :=
  .ofRun (fun _ => rfl) fun m hkeep =>
    .cached m.fresh (hf.mono (Contents.provenanceIn_mono hkeep))

/-- An observer is put around what takes the place of a filter. -/
theorem gives_observe {g : Formula} {o : Observer} (cost : ℕ) (h : f.StandsFor C base g)
    (hsingle : SingleVersion f.snapshots) (ho : Entries.Follows base o .filter f.digest) :
    Gives C base (liftM (g.observe o cost)) fun entries g => f.StandsFor C entries g :=
  .ofRun (fun _ => rfl) fun m hkeep => (h.mono hkeep).observed m.fresh cost hsingle (ho.mono hkeep)

/-- Where parts have changed there are some. -/
theorem not_isEmpty_of_forall₂ {fs gs : List Formula} (h : List.Forall₂ (StandsFor C base) fs gs)
    (hsame : ¬sameObjects fs gs = true) : gs.isEmpty = false := by
  rcases h with - | ⟨-, -⟩
  · exact absurd rfl hsame
  · rfl

/-- A node over what takes the places of its parts takes the place of the node. -/
theorem gives_withChildren {gs : List Formula} (hf : f.Built (C.provenanceIn base))
    (h : List.Forall₂ (StandsFor C base) f.children gs) :
    Gives C base (liftM (f.withChildren gs)) fun entries g => f.StandsFor C entries g := by
  have hlater {entries : Entries} (hkeep : Entries.Keeps base entries) :
      List.Forall₂ (StandsFor C entries) f.children gs := h.imp fun _ _ hfg => hfg.mono hkeep
  by_cases hsame : sameObjects f.children gs = true
  · have hrun : f.withChildren gs = Pure.pure f := by
      unfold withChildren
      rw [if_pos hsame]
    rw [hrun]
    exact .ofRun (fun _ => rfl) fun _ hkeep => .refl (hf.mono (Contents.provenanceIn_mono hkeep))
  · unfold withChildren
    rw [if_neg hsame]
    cases hf with
    | and id _ _ =>
      have hne : gs.isEmpty = false := not_isEmpty_of_forall₂ h hsame
      show Gives C base (liftM (allOf gs)) _
      unfold allOf
      rw [hne]
      exact .ofRun (fun _ => rfl) fun m hkeep => .and id m.fresh (hlater hkeep)
    | or id _ _ =>
      have hne : gs.isEmpty = false := not_isEmpty_of_forall₂ h hsame
      show Gives C base (liftM (anyOf gs)) _
      unfold anyOf
      rw [hne]
      exact .ofRun (fun _ => rfl) fun m hkeep => .or id m.fresh (hlater hkeep)
    | not id _ _ =>
      obtain - | ⟨hsubtracted, - | ⟨hsuperset, - | -⟩⟩ := h
      exact .ofRun (fun _ => rfl) fun m hkeep =>
        .not id m.fresh (hsubtracted.mono hkeep) (hsuperset.mono hkeep)
    | price id _ hp =>
      obtain - | ⟨hsource, - | -⟩ := h
      exact .ofRun (fun _ => rfl) fun m hkeep => .price id m.fresh (hsource.mono hkeep) hp
    | observed id cost _ ho =>
      obtain - | ⟨hinner, - | -⟩ := h
      obtain ⟨hsingle, hfollows⟩ := ho
      refine .ofRun (fun _ => rfl) fun m hkeep => ?_
      obtain ⟨hidentity, hbuilt, hresult⟩ :=
        (hinner.mono hkeep).observed m.fresh cost hsingle (hfollows.mono hkeep)
      exact ⟨⟨hidentity.digest, hidentity.snapshots⟩, hbuilt, hresult⟩
    | empty | constant | index | cached =>
      -- Leaves have no parts that could have changed.
      obtain - | - := h
      exact absurd rfl hsame

/-- What the cache puts in the place of a filter takes its place, where the filter over its analysed
parts does. -/
theorem gives_substitute (scope : Scope) {live : Work Formula}
    (hf : f.Built (C.provenanceIn base)) (hsingle : SingleVersion f.snapshots)
    (hlive : Gives C base live fun entries g => f.StandsFor C entries g) :
    Gives C base (substitute scope f live) fun entries g => f.StandsFor C entries g := by
  have hobserved {entries : Entries} {o : Observer} (hkeep : Entries.Keeps base entries)
      (ho : Entries.Follows entries o .filter f.digest) :
      Gives C entries (do liftM (Formula.observe (← live) o f.cost)) fun entries g =>
        f.StandsFor C entries g :=
    .bind (hlive.later hkeep) fun _ _ hkeep' hg =>
      gives_observe f.cost hg hsingle (ho.mono hkeep')
  have hbuilt : (Computation.filter f).Built C := hf.mono (C.provenanceIn_le base)
  refine .lookUp hbuilt hsingle scope f.cost ?_ ?_ ?_ ?_ ?_
  · intro entries hkeep
    exact gives_surrogate (hf.mono (Contents.provenanceIn_mono hkeep))
  · exact fun entries i hkeep ho => hobserved hkeep ho
  · exact fun entries i hkeep ho => hobserved hkeep ho
  · exact fun entries hkeep => hlive.later hkeep
  · exact fun entries hkeep => hlive.later hkeep

/-- Where each of some filters is analysed rightly, so are they one after the other. -/
theorem gives_analyseNodes (scope : Scope) {fs : List Formula}
    (h : ∀ f ∈ fs, Gives C base (analyseNode scope f) fun entries g => f.StandsFor C entries g) :
    Gives C base (analyseNodes scope fs) fun entries gs =>
      List.Forall₂ (StandsFor C entries) fs gs := by
  induction fs generalizing base with
  | nil => exact .pure fun _ _ => .nil
  | cons f rest ih =>
    refine .bind (h f List.mem_cons_self) fun entries g hkeep hg => ?_
    have hrest := ih fun f' hf' => (h f' (List.mem_cons_of_mem f hf')).later hkeep
    refine .bind hrest fun entries' gs hkeep' hgs => ?_
    exact .pure fun entries'' hkeep'' =>
      .cons (hg.mono (hkeep'.trans hkeep'')) (hgs.imp fun _ _ hfg => hfg.mono hkeep'')

/-- What analysing puts in the place of a filter takes its place. -/
theorem gives_analyseNode (scope : Scope) (hf : f.Built (C.provenanceIn base))
    (hsingle : SingleVersion f.snapshots) :
    Gives C base (analyseNode scope f) fun entries g => f.StandsFor C entries g := by
  -- The parts read what the whole reads, so none of them reads an index at two versions.
  induction hf with
  | empty id => exact .pure fun _ _ => .refl (.empty id)
  | constant id keys => exact .pure fun _ _ => .refl (.constant id keys)
  | index id hs => exact .pure fun _ _ => .refl (.index id hs)
  | cached id hf hkeys _ =>
    exact .pure fun _ hkeep => .refl (.cached id (hf.mono (Contents.provenanceIn_mono hkeep)) hkeys)
  | @and id children hne h ih =>
    have hf := Built.and id hne h
    refine gives_substitute scope hf hsingle ?_
    have hparts := gives_analyseNodes scope fun c hc =>
      ih c hc (hsingle.mono fun d hd => mem_compositeSnapshots.2 ⟨c, hc, hd⟩)
    refine .bind hparts fun entries gs hkeep hgs => ?_
    exact gives_withChildren (hf.mono (Contents.provenanceIn_mono hkeep)) hgs
  | @or id children hne h ih =>
    have hf := Built.or id hne h
    refine gives_substitute scope hf hsingle ?_
    have hparts := gives_analyseNodes scope fun c hc =>
      ih c hc (hsingle.mono fun d hd => mem_compositeSnapshots.2 ⟨c, hc, hd⟩)
    refine .bind hparts fun entries gs hkeep hgs => ?_
    exact gives_withChildren (hf.mono (Contents.provenanceIn_mono hkeep)) hgs
  | @not id f f' h h' ih ih' =>
    have hf := Built.not id h h'
    refine gives_substitute scope hf hsingle ?_
    have hsubtracted := ih (hsingle.mono fun d hd =>
      mem_compositeSnapshots.2 ⟨f, List.mem_cons_self, hd⟩)
    have hsuperset := ih' (hsingle.mono fun d hd =>
      mem_compositeSnapshots.2 ⟨f', List.mem_cons_of_mem f List.mem_cons_self, hd⟩)
    refine .bind hsubtracted fun entries g hkeep hg => ?_
    refine .bind (hsuperset.later hkeep) fun entries' g' hkeep' hg' => ?_
    exact gives_withChildren (hf.mono (Contents.provenanceIn_mono (hkeep.trans hkeep')))
      (.cons (hg.mono hkeep') (.cons hg' .nil))
  | @price id source prices predicate h hp ih =>
    have hf := Built.price id h hp
    refine gives_substitute scope hf hsingle ?_
    have hsource := ih (hsingle.mono fun d hd =>
      Digest.mem_sortDistinct.2 (List.mem_append_left _ hd))
    refine .bind hsource fun entries g hkeep hg => ?_
    exact gives_withChildren (hf.mono (Contents.provenanceIn_mono hkeep)) (.cons hg .nil)
  | @observed id inner o cost h ho ih =>
    have hf := Built.observed id cost h ho
    refine .bind (ih hsingle) fun entries g hkeep hg => ?_
    exact gives_withChildren (hf.mono (Contents.provenanceIn_mono hkeep)) (.cons hg .nil)

/-- So it is with a cache or without one. -/
theorem gives_analyse (scope : Scope) (hf : f.Built (C.provenanceIn base))
    (hsingle : SingleVersion f.snapshots) :
    Gives C base (analyse scope f) fun entries g => f.StandsFor C entries g := by
  intro w hw hbase
  rcases henabled : w.supervisor.isEnabled with - | -
  · have hrun : (analyse scope f).run w = (f, w) := analyse_disabled henabled
    rw [hrun]
    exact ⟨hw, .refl _, .refl (hf.mono (Contents.provenanceIn_mono hbase))⟩
  · have hrun : (analyse scope f).run w = (analyseNode scope f).run w := analyse_enabled henabled
    rw [hrun]
    exact gives_analyseNode scope hf hsingle w hw hbase

end Workspace

/-! ## All computations -/

namespace Computation

/-- Whether one computation can take the place of another: it may be given to the cache again, and
nothing that comes out tells them apart. -/
structure StandsFor (C : Contents) (entries : Entries) (x y : Computation) : Prop where
  /-- The other computation may be given to a cache. -/
  admissible : y.Admissible C entries
  /-- It has the same result. -/
  result : y.result = x.result

/-- A computation can take its own place. -/
theorem Admissible.standsFor {entries : Entries} {x : Computation} (h : x.Admissible C entries) :
    x.StandsFor C entries x := ⟨h, rfl⟩

/-- What can take the place of a computation can do so later. -/
theorem StandsFor.mono {old entries : Entries} (hkeep : Entries.Keeps old entries)
    {x y : Computation} (h : x.StandsFor C old y) : x.StandsFor C entries y :=
  ⟨h.admissible.mono hkeep, h.result⟩

/-- Analyses a computation. -/
def analyse (scope : Scope) : Computation → Work Computation
  | filter f => do return filter (← Workspace.analyse scope f)
  | facets c => do return facets (← Workspace.analyseFacets scope c)
  | order r => do return order (← Workspace.analyseSorter scope r)

end Computation

namespace Workspace

variable {base : Entries}

/-- What analysing puts in the place of a count of facets takes its place. -/
theorem gives_analyseFacets (scope : Scope) {c : FacetCount}
    (h : (Computation.facets c).Admissible C base) :
    Gives C base (analyseFacets scope c) fun entries d =>
      (Computation.facets c).StandsFor C entries (.facets d) := by
  obtain ⟨⟨hc, -⟩, hsingle⟩ := id h
  have hsame {entries : Entries} (hkeep : Entries.Keeps base entries) :
      Gives C entries (Pure.pure c) fun entries d =>
        (Computation.facets c).StandsFor C entries (.facets d) :=
    .pure fun _ hkeep' => (h.mono (hkeep.trans hkeep')).standsFor
  have hobserved {entries : Entries} {o : Observer} (hkeep : Entries.Keeps base entries)
      (ho : Entries.Follows entries o .extra c.digest) :
      Gives C entries (liftM (c.observedBy o)) fun entries d =>
        (Computation.facets c).StandsFor C entries (.facets d) := by
    refine .ofRun (fun _ => rfl) fun m hkeep' => ⟨⟨⟨?_, ?_⟩, hsingle⟩, ?_⟩
    · exact (hc.mono (Contents.provenanceIn_mono (hkeep.trans hkeep'))).observedBy o m
    · intro o' ho'
      obtain rfl := Option.some.inj ho'
      exact ho.mono hkeep'
    · exact congrArg Payload.extra hc.result.symm
  refine .lookUp h.built.built hsingle scope c.cost ?_ ?_ ?_ ?_ ?_
  · intro entries hkeep
    refine .ofRun (fun _ => rfl) fun m hkeep' => ⟨⟨⟨?_, ?_⟩, hsingle⟩, rfl⟩
    · exact (hc.mono (Contents.provenanceIn_mono (hkeep.trans hkeep'))).replaying m
    · exact fun o ho => absurd ho (Option.not_mem_none o)
  · exact fun entries i hkeep ho => hobserved hkeep ho
  · exact fun entries i hkeep ho => hobserved hkeep ho
  · exact fun entries hkeep => hsame hkeep
  · exact fun entries hkeep => hsame hkeep

/-- What analysing puts in the place of a merged order takes its place. -/
theorem gives_analyseSorter (scope : Scope) {r : MergedRecords}
    (h : (Computation.order r).Admissible C base) :
    Gives C base (analyseSorter scope r) fun entries t =>
      (Computation.order r).StandsFor C entries (.order t) := by
  obtain ⟨⟨hr, -⟩, hsingle⟩ := id h
  have hsame {entries : Entries} (hkeep : Entries.Keeps base entries) :
      Gives C entries (Pure.pure r) fun entries t =>
        (Computation.order r).StandsFor C entries (.order t) :=
    .pure fun _ hkeep' => (h.mono (hkeep.trans hkeep')).standsFor
  have hobserved {entries : Entries} {o : Observer}
      (ho : Entries.Follows entries o .sorted r.digest) :
      Gives C entries (liftM (r.observedBy o)) fun entries t =>
        (Computation.order r).StandsFor C entries (.order t) := by
    refine .ofRun (fun _ => rfl) fun m hkeep' => ⟨⟨⟨hr.observedBy o m, ?_⟩, hsingle⟩, ?_⟩
    · intro o' ho'
      obtain rfl := Option.some.inj ho'
      exact ho.mono hkeep'
    · exact congrArg Payload.sorted hr.result.symm
  refine .lookUp h.built.built hsingle scope r.cost ?_ ?_ ?_ ?_ ?_
  · intro entries hkeep
    refine .ofRun (fun _ => rfl) fun m _ => ⟨⟨⟨hr.replaying m, ?_⟩, hsingle⟩, rfl⟩
    exact fun o ho => absurd ho (Option.not_mem_none o)
  · exact fun entries i hkeep ho => hobserved ho
  · exact fun entries i hkeep ho => hobserved ho
  · exact fun entries hkeep => hsame hkeep
  · exact fun entries hkeep => hsame hkeep

/-- What analysing puts in the place of a computation takes its place. -/
theorem gives_analyseComputation (scope : Scope) {x : Computation} (h : x.Admissible C base) :
    Gives C base (x.analyse scope) fun entries y => x.StandsFor C entries y := by
  rcases x with f | c | r
  · obtain ⟨hf, hsingle⟩ := h
    refine .bind (gives_analyse scope hf hsingle) fun entries g _ hg => ?_
    refine .pure fun _ hkeep => ⟨⟨hg.built.mono (Contents.provenanceIn_mono hkeep), ?_⟩, ?_⟩
    · show SingleVersion g.snapshots
      rw [hg.snapshots]
      exact hsingle
    · exact congrArg Payload.filter hg.result
  · refine .bind (gives_analyseFacets scope h) fun _ d _ hd => ?_
    exact .pure fun _ hkeep => hd.mono hkeep
  · refine .bind (gives_analyseSorter scope h) fun _ t _ ht => ?_
    exact .pure fun _ hkeep => ht.mono hkeep

end Workspace

end EntityQuery
