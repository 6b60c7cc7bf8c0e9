import EntityQuery.Proofs.Engine.Fetching
import EntityQuery.Proofs.Engine.Repeated
import EntityQuery.Proofs.Pages.Requests
import Mathlib

/-!
# Planning policies answer alike

A policy decides how a query is answered: with the filter as it is, with results computed early, or
by bodies that are fetched first. What is answered does not depend on it, as long as there is no
cache and the entities that a query is limited to amount to its filter.

Two evaluations of one query run in step. Up to the ordering and after the sorting, each of their
steps succeeds, with a value that the policy does not matter for (`Evaluation.Settles`).
Initializing comparators, cutting out the page and sorting may fail, and these steps agree, errors
included (`initializeChain_agree`, `Evaluation.window_agree`, `SorterChain.sort_agree`).

Where the steps that may fail do not, the answer can be read off the query and the storage: keys and
facets are those of the filter, and each key comes with the body that the storage has for it
(`QueryRequest.evaluate_content`).
-/

namespace EntityQuery

variable {σ : Type}

/-! ## Windows of any two registries -/

namespace SlicerRegistry

/-- Sound registries give the same windows, and refuse the same pages. -/
theorem Sound.window_eq {r r' : SlicerRegistry} (h : r.Sound) (h' : r'.Sound)
    (texts : List (ℕ × String)) (number size total : ℕ) :
    (r.window texts number size total).1 = (r'.window texts number size total).1 :=
  (h.serve_eq ⟨texts, number, size, total⟩).trans (h'.serve_eq ⟨texts, number, size, total⟩).symm

end SlicerRegistry

/-! ## Engines side by side -/

/-- Two idle engines in which some comparators have the same places. -/
structure EngineState.Peers (valid : σ → Prop) (ids : List ComparatorId) (s t : EngineState σ) :
    Prop where
  /-- The first one is idle. -/
  left : s.Idle valid
  /-- So is the second one. -/
  right : t.Idle valid
  /-- The places are the same. -/
  places : s.memory.SamePlaces ids t.memory

namespace Evaluation

variable {valid : σ → Prop} {ids : List ComparatorId} {α β : Type} {V : α → β → Prop}

/-- Steps that settle agree, if their values do. -/
theorem Settles.agree {P : α → Prop} {Q : β → Prop} {x : Evaluation σ α} {y : Evaluation σ β}
    (hx : Settles valid x P) (hy : Settles valid y Q) (hvalues : ∀ a b, P a → Q b → V a b) :
    Agree (EngineState.Peers valid ids) V x y := by
  intro s t hst
  obtain ⟨a, s', hrun, ha, hs', hplaces⟩ := hx s hst.left
  obtain ⟨b, t', hrun', hb, ht', hplaces'⟩ := hy t hst.right
  rw [hrun, hrun']
  exact ⟨.ok (hvalues a b ha hb), hs', ht', hst.places.congr hplaces hplaces'⟩

/-- What agrees where there is no cache agrees as a step. -/
theorem ofAttempt_agree {x : Attempt α} {y : Attempt β} (h : Agree (Workspace.Peers ids) V x y) :
    Agree (EngineState.Peers valid ids) V (ofAttempt x) (ofAttempt y) := by
  intro s t hst
  obtain ⟨houtcomes, hpeers⟩ :=
    h s.workspace t.workspace ⟨hst.left.uncached, hst.right.uncached, hst.places⟩
  refine ⟨houtcomes, ⟨hpeers.left, hst.left.slicers, hst.left.store⟩,
    ⟨hpeers.right, hst.right.slicers, hst.right.store⟩, hpeers.places⟩

/-- Engines that are idle give the same windows. -/
theorem window_agree (page : PageRequest) (total : ℕ) :
    Agree (EngineState.Peers valid ids) Eq (window page total) (window page total) := by
  intro s t hst
  rw [run_window, run_window]
  refine ⟨.of_eq (hst.left.slicers.window_eq hst.right.slicers _ _ _ _),
    ⟨hst.left.uncached, ?_, hst.left.store⟩, ⟨hst.right.uncached, ?_, hst.right.store⟩,
    hst.places⟩
  · exact hst.left.slicers.after _ _ _ _
  · exact hst.right.slicers.after _ _ _ _

end Evaluation

/-! ## Answers -/

/-- What a query is told: keys, page, facets and bodies, but not how the matches were found. -/
def QueryResponse.content (r : QueryResponse) :
    List ℕ × Window × Option FacetSummary × List Entity :=
  (r.keys, r.page, r.facets, r.entities)

/-- An engine with another planning policy. -/
def EngineState.withPolicy (s : EngineState σ) (policy : PlanningPolicy) : EngineState σ :=
  { s with engine := { s.engine with options := { s.engine.options with policy } } }

namespace QueryRequest

open Evaluation

/-- What is asked of a query and of the bodies of entities: filters are built as filters are, every
match has a body, and if the query is limited to some entities, they amount to its filter. -/
structure Comparable (request : QueryRequest) (bodyOf : ℕ → Option Entity) : Prop where
  /-- The filter is built. -/
  filter_built : request.filter.Built .any
  /-- So are those of the comparators. -/
  comparators_built : ∀ c ∈ SorterChain.comparators request.ordering, c.filter.Built .any
  /-- Every match has a body. -/
  exists_body : ∀ k ∈ request.filter.result, (bodyOf k).isSome = true
  /-- The entities that the query is limited to amount to its filter. -/
  prefetch_covers : ∀ p ∈ request.prefetch, p.Covers request.filter bodyOf

/-- An engine that meets a query for the first time: it has no cache, calls have led to its slicers,
its storage is in a valid state, and no comparator of the query is initialized. -/
structure MetBy (valid : σ → Prop) (request : QueryRequest) (s : EngineState σ) : Prop where
  /-- There is no cache. -/
  uncached : s.engine.supervisor.isEnabled = false
  /-- Calls have led to the slicers. -/
  slicers : s.engine.slicers.Reachable
  /-- The storage is in a valid state. -/
  store : valid s.store
  /-- The comparators are fresh. -/
  fresh : ∀ c ∈ SorterChain.comparators request.ordering, s.memory.placements[c.id]? = none

variable {request : QueryRequest} {bodyOf : ℕ → Option Entity} {storage : Storage σ}
  {valid : σ → Prop} {ids : List ComparatorId}

/-- However they are found, the matches are those of the filter. -/
theorem found_settles (h : request.Comparable bodyOf)
    (hserves : storage.Serves valid request.entityType request.requirements bodyOf)
    (catalog : String) (options : EngineOptions) (prefetched : Bool) :
    Settles valid (request.found storage catalog options prefetched)
      (Matches.For request.filter bodyOf) := by
  have hfiltered : Settles valid
      (filtered options.policy ⟨catalog, request.entityType⟩ request.filter)
      (Matches.For request.filter bodyOf) := filtered_settles options.policy h.filter_built
  unfold found
  cases hp : request.prefetch with
  | none => exact hfiltered
  | some p =>
    cases prefetched with
    | false => exact hfiltered
    | true => exact fetched_settles hserves (h.prefetch_covers p hp) h.exists_body

/-- Once the matches of a query are found, what is answered agrees. -/
theorem answered_agree (h : request.Comparable bodyOf)
    (hserves : storage.Serves valid request.entityType request.requirements bodyOf)
    (catalog : String) (hids : ∀ c ∈ SorterChain.comparators request.ordering, c.id ∈ ids)
    (options options' : EngineOptions) (prefetched prefetched' : Bool) {f g : Matches}
    (hf : f.For request.filter bodyOf) (hg : g.For request.filter bodyOf) :
    Agree (EngineState.Peers valid ids) (fun r r' => r.content = r'.content)
      (request.answered storage catalog options prefetched f)
      (request.answered storage catalog options' prefetched' g) := by
  unfold answered
  rw [hf.keys_eq, hg.keys_eq]
  -- Facets are counted over the same keys.
  refine Agree.bind (V := Eq) ((facets_settles options.policy hf.isPlan.built request.facets).agree
    (facets_settles options'.policy hg.isPlan.built request.facets) ?_)
    fun facets facets' hfacets => ?_
  · rintro _ _ rfl rfl
    rw [hf.isPlan.result_eq, hg.isPlan.result_eq]
  -- Orderings are planned into others that order alike, so comparators are initialized alike.
  refine Agree.bind (V := fun chain chain' => SorterChain.Alike request.ordering chain ∧
      SorterChain.Alike request.ordering chain')
    ((planOrdering_settles options.policy request.ordering).agree
      (planOrdering_settles options'.policy request.ordering) fun _ _ hc hc' => ⟨hc, hc'⟩)
    fun chain chain' hchains => ?_
  obtain ⟨hchain, hchain'⟩ := hchains
  rw [initializeChain_alike _ _ hchain, initializeChain_alike _ _ hchain']
  refine (ofAttempt_agree (initializeChain_agree options.policy options'.policy catalog
    request.ordering request.filter.result h.comparators_built hids)).bind fun _ _ _ => ?_
  refine (window_agree request.page _).bind fun page page' hpage => ?_
  subst hpage
  have hids' : ∀ c ∈ SorterChain.comparators chain, c.id ∈ ids := by
    rw [hchain.comparators_eq]
    exact hids
  refine (ofAttempt_agree (Agree.ofRun (SorterChain.sort_agree (hchain.exchange hchain') hids'
    request.filter.result _ _))).bind fun sorted sorted' hsorted => ?_
  subst hsorted hfacets
  -- The bodies are those that the storage has, whether they were fetched before or not.
  by_cases hzero : request.requirements = 0
  · simp only [hzero, if_true]
    exact .pure rfl
  · simp only [hzero, if_false]
    refine Agree.bind (V := Eq) ((bodies_settles hserves hf.known_ofList sorted.1).agree
      (bodies_settles hserves hg.known_ofList sorted.1) ?_) fun entities entities' hentities => ?_
    · rintro _ _ rfl rfl
      rfl
    · subst hentities
      exact .pure rfl

/-- Evaluations of a query agree on any two engines, whatever the options of the engines. -/
theorem evaluate_agree (h : request.Comparable bodyOf)
    (hserves : storage.Serves valid request.entityType request.requirements bodyOf)
    (catalog : String) (hids : ∀ c ∈ SorterChain.comparators request.ordering, c.id ∈ ids) :
    Agree (EngineState.Peers valid ids) (fun r r' => r.content = r'.content)
      (request.evaluate storage catalog) (request.evaluate storage catalog) := by
  have hget : Agree (EngineState.Peers valid ids) (fun _ _ => True)
      (get : Evaluation σ (EngineState σ)) get := fun s t hst => ⟨.ok trivial, hst⟩
  have hfound (options options' : EngineOptions) (prefetched prefetched' : Bool) :
      Agree (EngineState.Peers valid ids)
        (fun f g => f.For request.filter bodyOf ∧ g.For request.filter bodyOf)
        (request.found storage catalog options prefetched)
        (request.found storage catalog options' prefetched') :=
    (found_settles h hserves catalog options prefetched).agree
      (found_settles h hserves catalog options' prefetched') fun _ _ hf hg => ⟨hf, hg⟩
  refine hget.bind fun s t _ => (hfound _ _ _ _).bind fun f g hfg => ?_
  exact answered_agree h hserves catalog hids _ _ _ _ hfg.1 hfg.2

/-- An engine that meets a query is idle. -/
theorem MetBy.idle {s : EngineState σ} (hs : request.MetBy valid s) : s.Idle valid :=
  ⟨hs.uncached, hs.slicers.sound, hs.store⟩

/-- Its planning policy does not matter to meeting a query. -/
theorem MetBy.withPolicy {s : EngineState σ} (hs : request.MetBy valid s)
    (policy : PlanningPolicy) : request.MetBy valid (s.withPolicy policy) :=
  ⟨hs.uncached, hs.slicers, hs.store, hs.fresh⟩

/-- A query is answered alike under all planning policies: on engines that meet it for the first
time, without a cache and with a storage that has one answer for each entity, keys, page, facets and
bodies are the same, or the same error, whatever the policies and all other options are. -/
theorem evaluate_withPolicy_eq (h : request.Comparable bodyOf)
    (hserves : storage.Serves valid request.entityType request.requirements bodyOf)
    (catalog : String) {s t : EngineState σ} (hs : request.MetBy valid s)
    (ht : request.MetBy valid t) (p q : PlanningPolicy) :
    ((request.evaluate storage catalog).run (s.withPolicy p)).1.map QueryResponse.content
      = ((request.evaluate storage catalog).run (t.withPolicy q)).1.map QueryResponse.content := by
  have hpeers : EngineState.Peers valid (idsOf (SorterChain.comparators request.ordering))
      (s.withPolicy p) (t.withPolicy q) := by
    refine ⟨(hs.withPolicy p).idle, (ht.withPolicy q).idle, fun id hid => ?_⟩
    obtain ⟨c, hc, rfl⟩ := List.mem_map.1 hid
    exact (hs.fresh c hc).trans (ht.fresh c hc).symm
  obtain ⟨houtcomes, -⟩ := evaluate_agree h hserves catalog
    (fun c hc => List.mem_map_of_mem hc) _ _ hpeers
  exact houtcomes.map_eq

/-- What a query is told where no comparator occurs twice and the page can be cut out: the keys in
the window of the page, the facets of the filter, and the bodies that the storage has for the
keys. -/
theorem evaluate_content (h : request.Comparable bodyOf)
    (hserves : storage.Serves valid request.entityType request.requirements bodyOf)
    (hnodup : (idsOf (SorterChain.comparators request.ordering)).Nodup) (catalog : String)
    {s : EngineState σ} (hs : request.MetBy valid s) {gaps : List Gap}
    (hgaps : Gap.ofTexts request.page.gaps = .ok gaps) (hnumber : 1 ≤ request.page.number)
    (hsize : 1 ≤ request.page.size) :
    let answer := request.answerOn
      (windowOf gaps request.page.number request.page.size request.filter.result.size)
    ((request.evaluate storage catalog).run s).1.map QueryResponse.content
      = .ok (answer.keys, answer.page, answer.facets,
          if request.requirements = 0 then [] else answer.keys.filterMap bodyOf) := by
  intro answer
  let options := s.engine.options
  let prefetched := (decision options request).any (·.prefetch)
  obtain ⟨⟨planned, keys, known⟩, s₁, hfound, hm, hidle, hplaces⟩ :=
    found_settles h hserves catalog options prefetched s hs.idle
  obtain rfl : keys = request.filter.result := hm.keys_eq
  have hready : s₁.Ready request := by
    refine ⟨hidle.uncached, hidle.slicers, fun stage hstage => ?_⟩
    exact ((EngineState.Ready.of_fresh hs.uncached hs.slicers hs.fresh).preparable stage
      hstage).congr hplaces
  obtain ⟨s₂, hs₂, hstore, hanswered⟩ := answered_run hready h.comparators_built hnodup storage
    catalog options prefetched hm.isPlan.built hm.isPlan.result_eq known hgaps hnumber hsize
  have hbodies : Settles valid
      (if request.requirements = 0 then pure [] else
        bodies storage ⟨catalog, request.entityType⟩ request.requirements (.ofList known)
          answer.keys)
      (· = if request.requirements = 0 then [] else answer.keys.filterMap bodyOf) := by
    split_ifs
    · exact .pure rfl
    · exact bodies_settles hserves hm.known_ofList answer.keys
  obtain ⟨entities, s₃, hrun, rfl, -⟩ :=
    hbodies s₂ ⟨hs₂.disabled, hs₂.slicers_sound, hstore ▸ hidle.store⟩
  have hget : (get : Evaluation σ (EngineState σ)).run s = (.ok s, s) := rfl
  have hevaluate : (request.evaluate storage catalog).run s = _ :=
    (run_bind_of_ok hget _).trans ((run_bind_of_ok hfound _).trans (hanswered _ s₃ hrun))
  rw [hevaluate]
  rfl

/-- Even products by brand, where the query is limited to the first four products: one policy reads
the index and the other one reads bodies, and both give the same two products. -/
theorem evaluate_withPolicy_eq_even :
    let product (k : ℕ) : Entity := ⟨"product", k, 1, [("code", .null)]⟩
    let store : EntityStore := .putAll {} [product 1, product 2, product 3, product 4, product 6]
    let even : CandidateSet := ⟨[2, 4], by decide⟩
    let brand : Comparator :=
      ⟨0, "brand", .constant (Formula.constantProfile 0 (.ofKeys [5, 7])) (.ofKeys [5, 7]),
        [⟨"brands", .reversedPrimaryKey⟩], [(2, 5), (4, 7)]⟩
    let request : QueryRequest :=
      { entityType := "product"
        filter := .constant (Formula.constantProfile 1 even) even
        ordering := [⟨"brand", .referenced brand⟩]
        prefetch := some ⟨⟨[1, 2, 3, 4], by decide⟩, fun e => e.primaryKey % 2 == 0⟩
        requirements := 1 }
    let s : EngineState EntityStore := ⟨{ options := {}, supervisor := .disabled }, {}, store⟩
    request.Comparable (store.bodyOf "product" 1) ∧ request.MetBy store.ReadsAs s ∧
      (decision { policy := .cacheEnforcing } request).map (·.prefetch) = some false ∧
      (decision { policy := .prefetchFavouring } request).map (·.prefetch) = some true ∧
      let content := ([4, 2], windowOf [] 1 20 2, none, [product 4, product 2])
      ((request.evaluate EntityStore.storage "catalog").run
          (s.withPolicy .cacheEnforcing)).1.map QueryResponse.content = .ok content ∧
        ((request.evaluate EntityStore.storage "catalog").run
          (s.withPolicy .prefetchFavouring)).1.map QueryResponse.content = .ok content := by
  intro product store even brand request s
  have hbody (k : ℕ) (hk : k ∈ [1, 2, 3, 4]) :
      store.bodyOf "product" 1 k = some (product k) := by
    have hfind : store.find? k = some (product k) := by
      simp only [List.mem_cons, List.not_mem_nil, or_false] at hk
      rcases hk with rfl | rfl | rfl | rfl
      all_goals
        simp only [store, EntityStore.putAll, List.foldl_cons, List.foldl_nil, EntityStore.put,
          EntityStore.find?, Std.HashMap.getElem?_insert]
        rfl
    exact EntityStore.bodyOf_of_find? hfind 1
  have hcomparable : request.Comparable (store.bodyOf "product" 1) :=
    { filter_built := .constant 1 even
      comparators_built := by
        intro c hc
        obtain rfl : c = brand := List.mem_singleton.mp hc
        exact .constant 0 _
      exists_body := by
        intro k hk
        have hlisted : k ∈ [2, 4] := hk
        rw [hbody k (by grind)]
        rfl
      prefetch_covers := by
        intro p hp
        obtain rfl := Option.some.inj hp
        refine ⟨fun k hk => ?_, fun k hk e he => ?_⟩
        · have hlisted : k ∈ [2, 4] := hk
          have hkey : k ∈ [1, 2, 3, 4] := by grind
          exact hkey
        · have hkey : k ∈ [1, 2, 3, 4] := hk
          obtain rfl := Option.some.inj ((hbody k hkey).symm.trans he)
          simp only [List.mem_cons, List.not_mem_nil, or_false] at hkey
          rcases hkey with rfl | rfl | rfl | rfl
          all_goals decide }
  have hmet : request.MetBy store.ReadsAs s :=
    ⟨rfl, .fresh, ⟨rfl, rfl, rfl⟩, fun c _ => Std.HashMap.getElem?_empty⟩
  have hfavouring : (decision { policy := .prefetchFavouring } request).map (·.prefetch)
      = some true := congrArg some (PrefetchDecision.decide_prefetchFavouring _ _ _ _ _)
  have hserves := store.serves "product" 1
  have hgaps : Gap.ofTexts request.page.gaps = .ok [] := rfl
  have hread := evaluate_content hcomparable hserves (List.nodup_singleton _) "catalog"
    (hmet.withPolicy .cacheEnforcing) hgaps (by decide) (by decide)
  have hkeys : (request.answerOn (windowOf [] 1 20 2)).keys = [4, 2] := by cbv
  have hbodies : [4, 2].filterMap (store.bodyOf "product" 1) = [product 4, product 2] := by
    rw [List.filterMap_cons_some (hbody 4 (by decide)),
      List.filterMap_cons_some (hbody 2 (by decide)), List.filterMap_nil]
  have hcontent : ((request.evaluate EntityStore.storage "catalog").run
      (s.withPolicy .cacheEnforcing)).1.map QueryResponse.content
      = .ok ([4, 2], windowOf [] 1 20 2, none, [product 4, product 2]) := by
    rw [← hbodies, ← hkeys]
    exact hread
  have hsame := evaluate_withPolicy_eq hcomparable hserves "catalog" hmet hmet .prefetchFavouring
    .cacheEnforcing
  exact ⟨hcomparable, hmet, rfl, hfavouring, hcontent, hsame.trans hcontent⟩

end QueryRequest

end EntityQuery
