import EntityQuery.Proofs.Engine.Uncached

/-!
# Answering a query again

A comparator is initialized once, for one set of entities. Being used before that is an error, and
so is being initialized for another set, and the comparators of nested queries are initialized on
the way. Neither error can come up where no comparator occurs twice, at any depth: the first answer
initializes each comparator for the matches of its own query, and every further answer finds it
initialized for them (`EngineState.Ready`).

Without a cache, what is done once the matches are known can be read off the query alone, up to the
bodies (`QueryRequest.answered_run`). Where no bodies are to be fetched either, so can each answer
(`QueryRequest.answerOn`): its keys are a window of one order of the matches, whatever page is asked
for and whatever was answered before (`QueryRequest.evaluate_repeatedly`).
-/

namespace EntityQuery

namespace QueryRequest

/-- The same query for some page. -/
def onPage (request : QueryRequest) (page : PageRequest) : QueryRequest := { request with page }

/-- The answer to a query whose page has some window. -/
def answerOn (request : QueryRequest) (page : Window) : QueryResponse :=
  let matching := request.filter.result
  { keys := page.keysOf (SorterChain.order request.ordering matching)
    entities := []
    page
    facets := request.facets.map fun buckets =>
      FacetCount.summarize (buckets.mergeSort fun a b => decide (a.facet ≤ b.facet)) matching
    prefetched := false }

/-- What a query has to be like to be answered by its filter and by keys alone, without error. -/
structure Answerable (request : QueryRequest) : Prop where
  /-- No entities are fetched first. -/
  prefetch_eq : request.prefetch = none
  /-- No bodies are asked for. -/
  requirements_eq : request.requirements = 0
  /-- The filter is built as filters are. -/
  filter_built : request.filter.Built .any
  /-- The filters of all nested queries are built as filters are. -/
  comparators_built : ∀ c ∈ SorterChain.comparators request.ordering, c.filter.Built .any
  /-- No comparator occurs twice, at any depth. -/
  comparators_nodup : (idsOf (SorterChain.comparators request.ordering)).Nodup

end QueryRequest

/-- A page that can be cut out: it has a number and room, and its gaps can be parsed. -/
structure PageRequest.Valid (page : PageRequest) : Prop where
  /-- Pages are numbered from one. -/
  one_le_number : 1 ≤ page.number
  /-- A page has room. -/
  one_le_size : 1 ≤ page.size
  /-- The gaps can be parsed. -/
  gaps_eq : ∃ gaps, Gap.ofTexts page.gaps = .ok gaps

/-- What holds of an engine between two answers to a query. -/
structure EngineState.Ready {σ : Type} (s : EngineState σ) (request : QueryRequest) : Prop where
  /-- There is no cache. -/
  disabled : s.engine.supervisor.isEnabled = false
  /-- The slicers remember windows of the walk only. -/
  slicers_sound : s.engine.slicers.Sound
  /-- The comparators are fresh, or they are initialized for the matches already. -/
  preparable : ∀ stage ∈ request.ordering,
    stage.sorter.Preparable s.memory request.filter.result

/-- An engine without a cache is ready for a query whose comparators are fresh. -/
theorem EngineState.Ready.of_fresh {σ : Type} {s : EngineState σ} {request : QueryRequest}
    (hcache : s.engine.supervisor.isEnabled = false) (hslicers : s.engine.slicers.Reachable)
    (hfresh : ∀ c ∈ SorterChain.comparators request.ordering, s.memory.placements[c.id]? = none) :
    s.Ready request := by
  refine ⟨hcache, hslicers.sound, fun stage hstage c hc => Or.inl fun d hd => ?_⟩
  refine hfresh d (SorterChain.mem_comparators hstage ?_)
  rw [hc]
  exact hd

/-- Planning and computing do not matter to being ready. -/
theorem EngineState.Ready.steady {σ : Type} {s s' : EngineState σ} {request : QueryRequest}
    (h : s.Ready request) (hsteady : s.Steady s') : s'.Ready request where
  disabled := hsteady.engine_eq ▸ h.disabled
  slicers_sound := hsteady.engine_eq ▸ h.slicers_sound
  preparable stage hstage := (h.preparable stage hstage).congr hsteady.placements_eq

namespace QueryRequest

open Evaluation

variable {σ : Type} {request : QueryRequest} {s : EngineState σ}

/-- Once the matches of a query are found, an engine that is ready for it counts the facets, orders
the matches and cuts out the page without error. What is left to do is to fetch bodies. -/
theorem answered_run (hs : s.Ready request)
    (hbuilt : ∀ c ∈ SorterChain.comparators request.ordering, c.filter.Built .any)
    (hnodup : (idsOf (SorterChain.comparators request.ordering)).Nodup)
    (storage : Storage σ) (catalog : String) (options : EngineOptions) (prefetched : Bool)
    {planned : Formula} (hplanned : planned.Built .any)
    (hresult : planned.result = request.filter.result) (known : List (ℕ × Entity))
    {gaps : List Gap} (hgaps : Gap.ofTexts request.page.gaps = .ok gaps)
    (hnumber : 1 ≤ request.page.number) (hsize : 1 ≤ request.page.size) :
    let answer := request.answerOn
      (windowOf gaps request.page.number request.page.size request.filter.result.size)
    ∃ s', s'.Ready request ∧ s'.store = s.store ∧ ∀ entities t,
      (if request.requirements = 0 then pure [] else
          bodies storage ⟨catalog, request.entityType⟩ request.requirements (.ofList known)
            answer.keys).run s' = (.ok entities, t) →
        (request.answered storage catalog options prefetched
            ⟨planned, request.filter.result, known⟩).run s
          = (.ok { answer with entities, prefetched }, t) := by
  intro answer
  let policy := options.policy
  let scope : Scope := ⟨catalog, request.entityType⟩
  -- Planning leaves the engine and all comparators as they are.
  obtain ⟨s₁, hfacets, hsteady₁⟩ := facets_run policy scope hs.disabled hplanned request.facets
  rw [hresult] at hfacets
  have hs₁ := hs.steady hsteady₁
  obtain ⟨ordering, s₂, hordering, halike, hsteady₂⟩ :=
    planOrdering_run policy scope hs₁.disabled request.ordering
  have hs₂ := hs₁.steady hsteady₂
  -- The comparators of the planned ordering are those of the query.
  obtain ⟨w, hinitialized, hengine, hprepared⟩ := initialized_run policy hs₂.disabled
    catalog (halike.comparators_eq ▸ hbuilt) (halike.comparators_eq ▸ hnodup)
    (halike.forall_comparator.mpr hs₂.preparable)
  -- The slicers are the only part of the engine that changes.
  obtain ⟨slicers, hwindow, hsound⟩ := window_run (s := s₂.withWorkspace w)
    (hengine ▸ hs₂.slicers_sound) request.page hgaps hnumber hsize request.filter.result.size
  let s₃ : EngineState σ := { s₂.withWorkspace w with
    engine := { (s₂.withWorkspace w).engine with slicers } }
  obtain ⟨skipped, m, hsorted, hplacements⟩ := sorted_run (s := s₃) halike hprepared answer.page
  refine ⟨s₃.withWorkspace { s₃.workspace with memory := m }, ⟨?_, hsound, ?_⟩,
    hsteady₂.store_eq.trans hsteady₁.store_eq, ?_⟩
  · exact (congrArg (fun e => Supervisor.isEnabled e.supervisor) hengine).trans hs₂.disabled
  · -- For the next page, the comparators are initialized already.
    intro stage hstage c hc
    have hplaced := halike.forall_comparator.mp hprepared stage hstage c hc
    refine Or.inr (Eq.trans ?_ hplaced)
    exact congrArg (·[c.id]?) hplacements
  · intro entities t hbodies
    unfold answered
    refine (run_bind_of_ok hfacets _).trans ?_
    refine (run_bind_of_ok hordering _).trans ?_
    refine (run_bind_of_ok hinitialized _).trans ?_
    refine (run_bind_of_ok hwindow _).trans ?_
    refine (run_bind_of_ok hsorted _).trans ?_
    split_ifs at hbodies ⊢
    · exact run_bind_of_ok hbodies _
    · exact run_bind_of_ok hbodies _

/-- An engine without a cache answers a query for a page, and is ready for the next one. -/
theorem evaluate_onPage (h : request.Answerable) (hs : s.Ready request) (storage : Storage σ)
    (catalog : String) (page : PageRequest) {gaps : List Gap}
    (hgaps : Gap.ofTexts page.gaps = .ok gaps) (hnumber : 1 ≤ page.number) (hsize : 1 ≤ page.size) :
    ∃ s', ((request.onPage page).evaluate storage catalog).run s
        = (.ok (request.answerOn
            (windowOf gaps page.number page.size request.filter.result.size)), s') ∧
      s'.Ready request := by
  obtain ⟨planned, s₁, hfiltered, hplanned, hresult, hsteady⟩ := filtered_run
    s.engine.options.policy ⟨catalog, request.entityType⟩ hs.disabled h.filter_built
  have hplan := hs.steady hsteady
  have hs₁ : s₁.Ready (request.onPage page) :=
    ⟨hplan.disabled, hplan.slicers_sound, hplan.preparable⟩
  obtain ⟨s₂, hs₂, -, hanswered⟩ := answered_run hs₁ h.comparators_built h.comparators_nodup storage
    catalog s.engine.options false hplanned hresult [] hgaps hnumber hsize
  refine ⟨s₂, ?_, hs₂.disabled, hs₂.slicers_sound, hs₂.preparable⟩
  obtain ⟨entityType, filter, ordering, pageRequest, facets, prefetch, requirements, prefer⟩ :=
    request
  obtain rfl : prefetch = none := h.prefetch_eq
  obtain rfl : requirements = 0 := h.requirements_eq
  have hget : (get : Evaluation σ (EngineState σ)).run s = (.ok s, s) := rfl
  unfold evaluate
  refine (run_bind_of_ok hget _).trans ?_
  refine (run_bind_of_ok hfiltered _).trans ?_
  exact hanswered [] s₂ rfl

/-- An engine without a cache answers a query for pages that are asked for one after the other. -/
theorem evaluate_onPages (h : request.Answerable) (hs : s.Ready request) (storage : Storage σ)
    (catalog : String) {pages : List PageRequest} (hpages : ∀ page ∈ pages, page.Valid) :
    ∃ answers s', (pages.mapM fun page => (request.onPage page).evaluate storage catalog).run s
        = (.ok answers, s') ∧ s'.Ready request ∧
      List.Forall₂ (fun page answer => ∃ gaps, Gap.ofTexts page.gaps = .ok gaps ∧
        answer = request.answerOn
          (windowOf gaps page.number page.size request.filter.result.size)) pages answers := by
  induction pages generalizing s with
  | nil => exact ⟨[], s, rfl, hs, .nil⟩
  | cons page rest ih =>
    obtain ⟨⟨hnumber, hsize, gaps, hgaps⟩, hrest⟩ := List.forall_mem_cons.mp hpages
    obtain ⟨s₁, hrun₁, hs₁⟩ := evaluate_onPage h hs storage catalog page hgaps hnumber hsize
    obtain ⟨answers, s₂, hrun₂, hs₂, hanswers⟩ := ih hs₁ hrest
    refine ⟨_ :: answers, s₂, ?_, hs₂, .cons ⟨gaps, hgaps, rfl⟩ hanswers⟩
    rw [List.mapM_cons, run_bind_of_ok hrun₁, run_bind_of_ok hrun₂]
    rfl

/-- A query whose comparators are fresh and none of which occurs twice is answered without error by
an engine without a cache, for any page and any number of times. Each answer holds what lies in the
window of its page, and all of them are windows of one order of the matches. -/
theorem evaluate_repeatedly (h : request.Answerable)
    (hcache : s.engine.supervisor.isEnabled = false) (hslicers : s.engine.slicers.Reachable)
    (hfresh : ∀ c ∈ SorterChain.comparators request.ordering, s.memory.placements[c.id]? = none)
    (storage : Storage σ) (catalog : String) {pages : List PageRequest}
    (hpages : ∀ page ∈ pages, page.Valid) :
    (SorterChain.order request.ordering request.filter.result).Perm request.filter.result.keys ∧
      ∃ answers, ((pages.mapM fun page => (request.onPage page).evaluate storage catalog).run s).1
          = .ok answers ∧
        List.Forall₂ (fun page answer =>
          (∃ gaps, Gap.ofTexts page.gaps = .ok gaps ∧
            answer.page = windowOf gaps page.number page.size request.filter.result.size) ∧
          answer.keys = answer.page.keysOf
            (SorterChain.order request.ordering request.filter.result)) pages answers := by
  obtain ⟨answers, s', hrun, -, hanswers⟩ :=
    evaluate_onPages h (.of_fresh hcache hslicers hfresh) storage catalog hpages
  refine ⟨SorterChain.order_perm _ _, answers, by rw [hrun], hanswers.imp fun page answer => ?_⟩
  rintro ⟨gaps, hgaps, rfl⟩
  exact ⟨⟨gaps, hgaps, rfl⟩, rfl⟩

/-- Products by brand, where the brands are ordered by country. The second page is asked for twice,
and a larger page after it. -/
theorem evaluate_repeatedly_by_country :
    let constant (id : NodeId) (keys : CandidateSet) : Formula :=
      .constant (Formula.constantProfile id keys) keys
    let country : Comparator :=
      ⟨1, "country", constant 0 (.ofKeys [20, 21]), [⟨"country", .primaryKey⟩], [(5, 21), (7, 20)]⟩
    let brand : Comparator :=
      ⟨0, "brand", constant 1 (.ofKeys [5, 7]), [⟨"country", .referenced country⟩],
        [(1, 5), (2, 7), (3, 5)]⟩
    let request : QueryRequest :=
      { entityType := "product"
        filter := constant 2 ⟨[1, 2, 3, 4], by decide⟩
        ordering := [⟨"brand", .referenced brand⟩] }
    let s : EngineState EntityStore := ⟨{ options := {}, supervisor := .disabled }, {}, {}⟩
    let pages : List PageRequest :=
      [{ number := 2, size := 2 }, { size := 2 }, { number := 2, size := 2 }, { size := 3 }]
    let order := SorterChain.order request.ordering request.filter.result
    request.Answerable ∧ (∀ page ∈ pages, page.Valid) ∧ order.length = 4 ∧
      ∃ answers, ((pages.mapM fun page =>
          (request.onPage page).evaluate EntityStore.storage "catalog").run s).1 = .ok answers ∧
        answers.map (·.keys)
          = [order.extract 2 4, order.extract 0 2, order.extract 2 4, order.extract 0 3] := by
  intro constant country brand request s pages order
  have hbuilt (id : NodeId) (keys : CandidateSet) : (constant id keys).Built .any :=
    .constant id keys
  have hanswerable : request.Answerable :=
    { prefetch_eq := rfl
      requirements_eq := rfl
      filter_built := hbuilt 2 _
      comparators_built := by
        intro c hc
        have hc : c ∈ [brand, country] := hc
        rcases List.mem_pair.mp hc with rfl | rfl
        · exact hbuilt 1 _
        · exact hbuilt 0 _
      comparators_nodup := by decide }
  have hgaps : Gap.ofTexts [] = .ok [] := rfl
  have hvalid : ∀ page ∈ pages, page.Valid := by
    simp only [pages, List.forall_mem_cons]
    exact ⟨⟨by decide, by decide, [], hgaps⟩, ⟨by decide, by decide, [], hgaps⟩,
      ⟨by decide, by decide, [], hgaps⟩, ⟨by decide, by decide, [], hgaps⟩, fun p hp => nomatch hp⟩
  have hfresh : ∀ c ∈ SorterChain.comparators request.ordering, s.memory.placements[c.id]? = none :=
    fun c _ => Std.HashMap.getElem?_empty
  obtain ⟨hperm, answers, hrun, hanswers⟩ := evaluate_repeatedly (s := s) hanswerable rfl .fresh
    hfresh EntityStore.storage "catalog" hvalid
  have hlength : order.length = 4 := hperm.length_eq
  -- Without gaps, the window of a page tells its place in the order.
  have hkeys {number size offset : ℕ} {answer : QueryResponse}
      (hwindow : (windowOf [] number size 4).offset = offset ∧
        (windowOf [] number size 4).limit = size)
      (h : (∃ gaps, Gap.ofTexts [] = .ok gaps ∧ answer.page = windowOf gaps number size 4) ∧
        answer.keys = answer.page.keysOf order) :
      answer.keys = order.extract (min offset 4) (min (Word.satAdd offset size) 4) := by
    obtain ⟨⟨gaps, hparsed, hpage⟩, hkeys⟩ := h
    obtain rfl : [] = gaps := Except.ok.inj (hgaps.symm.trans hparsed)
    rw [hkeys, hpage, Window.keysOf, hwindow.1, hwindow.2, hlength]
  refine ⟨hanswerable, hvalid, hlength, answers, hrun, ?_⟩
  simp only [pages, List.forall₂_cons_left_iff, List.forall₂_nil_left_iff] at hanswers
  obtain ⟨a₁, _, h₁, ⟨a₂, _, h₂, ⟨a₃, _, h₃, ⟨a₄, _, h₄, rfl, rfl⟩, rfl⟩, rfl⟩, rfl⟩ := hanswers
  simp only [List.map_cons, List.map_nil]
  rw [hkeys ⟨by cbv, by cbv⟩ h₁, hkeys ⟨by cbv, by cbv⟩ h₂, hkeys ⟨by cbv, by cbv⟩ h₃,
    hkeys ⟨by cbv, by cbv⟩ h₄]
  rfl

end QueryRequest

end EntityQuery
