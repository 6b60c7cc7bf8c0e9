import EntityQuery.Proofs.Engine.Repeated
import EntityQuery.Proofs.Planning.Cheap

/-!
# Walking the pages of a query

Without a cache, and without bodies to fetch, the answer to each page of a query can be read off the
query alone, whatever was answered before (`QueryRequest.evaluate_onPage`). Where the gaps and the
matches are counted without overflow, the page is a window of the table that the gaps describe
(`QueryRequest.answer`), and the windows of all pages tile the order. Walking the pages therefore
gives every match once (`QueryRequest.walk_pages`).
-/

namespace EntityQuery

namespace QueryRequest

/-- The same query for the page with another number. -/
def atPage (request : QueryRequest) (number : ℕ) : QueryRequest :=
  request.onPage { request.page with number }

/-- The answer to a page of a query, as a window of the table that the gaps describe. -/
def answer (request : QueryRequest) (gaps : List Gap) (number : ℕ) : QueryResponse :=
  request.answerOn (tableWindow gaps number request.page.size request.filter.result.size)

/-- What a query has to be like for its pages to be walked: it is answered by its filter and by keys
alone, its gaps can be parsed, and its pages have room. -/
structure Walkable (request : QueryRequest) (gaps : List Gap) : Prop
    extends request.Answerable where
  /-- Keys have 32 bits. -/
  key_lt : ∀ k ∈ request.filter.result, k < 2 ^ 32
  /-- The gaps can be parsed. -/
  gaps_eq : Gap.ofTexts request.page.gaps = .ok gaps
  /-- The sizes of the gaps add up to a word. -/
  gaps_sum_lt : (gaps.map Gap.size).sum < Word.modulus
  /-- A page has room. -/
  one_le_size : 1 ≤ request.page.size

variable {σ : Type} {request : QueryRequest} {gaps : List Gap} {s : EngineState σ}

/-- The order of the matches has as many keys as there are matches, which is a word. -/
theorem Walkable.length_order (h : request.Walkable gaps) :
    (SorterChain.order request.ordering request.filter.result).length = request.filter.result.size ∧
      request.filter.result.size ≤ 2 ^ 32 :=
  ⟨(SorterChain.order_perm _ _).length_eq, CandidateSet.size_le h.key_lt⟩

/-- An engine without a cache gives the answer to a page, and is ready for the next one. -/
theorem evaluate_atPage (h : request.Walkable gaps) (hs : s.Ready request) (storage : Storage σ)
    (catalog : String) {number : ℕ} (hnumber : 1 ≤ number) :
    ∃ s', ((request.atPage number).evaluate storage catalog).run s
        = (.ok (request.answer gaps number), s') ∧ s'.Ready request := by
  have htotal : (request.filter.result.size : ℤ) ≤ Signed.max := by
    have hsmall := h.length_order.2
    unfold Signed.max
    omega
  obtain ⟨s', hrun, hready⟩ := evaluate_onPage h.toAnswerable hs storage catalog
    { request.page with number } h.gaps_eq hnumber h.one_le_size
  refine ⟨s', hrun.trans ?_, hready⟩
  rw [windowOf_eq_tableWindow h.gaps_sum_lt hnumber h.one_le_size htotal]
  rfl

/-- An engine without a cache gives the answers to pages of a query that are asked for one after the
other, in any order. -/
theorem evaluate_pages (h : request.Walkable gaps) (hs : s.Ready request) (storage : Storage σ)
    (catalog : String) {pages : List ℕ} (hpages : ∀ p ∈ pages, 1 ≤ p) :
    ∃ s', (pages.mapM fun p => (request.atPage p).evaluate storage catalog).run s
        = (.ok (pages.map (request.answer gaps)), s') ∧ s'.Ready request := by
  induction pages generalizing s with
  | nil => exact ⟨s, rfl, hs⟩
  | cons p rest ih =>
    obtain ⟨hp, hrest⟩ := List.forall_mem_cons.mp hpages
    obtain ⟨s₁, hrun₁, hs₁⟩ := evaluate_atPage h hs storage catalog hp
    obtain ⟨s₂, hrun₂, hs₂⟩ := ih hs₁ hrest
    refine ⟨s₂, ?_, hs₂⟩
    rw [List.mapM_cons, run_bind_of_ok hrun₁, run_bind_of_ok hrun₂]
    rfl

/-- The pages up to the last one hold all matches in order. -/
theorem Walkable.flatMap_answer (h : request.Walkable gaps) :
    ((List.range' 1 (request.answer gaps 1).page.last).flatMap
        fun p => (request.answer gaps p).keys)
      = SorterChain.order request.ordering request.filter.result := by
  obtain ⟨hlength, hsmall⟩ := h.length_order
  have hword : (SorterChain.order request.ordering request.filter.result).length ≤ Word.max := by
    unfold Word.max
    omega
  -- The windows of the pages tile the order.
  have htiles := flatMap_keysOf gaps request.page.size hword
  rw [hlength] at htiles
  have hlast : (request.answer gaps 1).page.last
      = lastPageNumber gaps request.page.size request.filter.result.size := tableWindow_last ..
  rw [hlast]
  exact htiles

/-- Walking the pages of a query on an engine without a cache gives every match once, in the order
of the query. All pages up to the last one tell their own number, the same last page and the same
total, and any other page is answered with the first one. -/
theorem walk_pages (h : request.Walkable gaps) (hcache : s.engine.supervisor.isEnabled = false)
    (hslicers : s.engine.slicers.Reachable)
    (hfresh : ∀ c ∈ SorterChain.comparators request.ordering, s.memory.placements[c.id]? = none)
    (storage : Storage σ) (catalog : String) :
    ∃ answer : ℕ → QueryResponse,
      (∀ pages : List ℕ, (∀ p ∈ pages, 1 ≤ p) →
        ((pages.mapM fun p => (request.atPage p).evaluate storage catalog).run s).1
          = .ok (pages.map answer)) ∧
      (∀ p, 1 ≤ p → p ≤ (answer 1).page.last → (answer p).page.page = p ∧
        (answer p).page.last = (answer 1).page.last ∧
        (answer p).page.total = (answer 1).page.total) ∧
      ((List.range' 1 (answer 1).page.last).flatMap fun p => (answer p).keys)
        = SorterChain.order request.ordering request.filter.result ∧
      (SorterChain.order request.ordering request.filter.result).Perm request.filter.result.keys ∧
      ∀ p, (answer 1).page.last < p →
        (answer p).keys = (answer 1).keys ∧ (answer p).page = (answer 1).page := by
  have hready : s.Ready request := .of_fresh hcache hslicers hfresh
  have hlast (p : ℕ) : (request.answer gaps p).page.last
      = lastPageNumber gaps request.page.size request.filter.result.size := tableWindow_last ..
  refine ⟨request.answer gaps, fun pages hpages => ?_, fun p hp hle => ?_, h.flatMap_answer,
    SorterChain.order_perm _ _, fun p hlt => ?_⟩
  · obtain ⟨s', hrun, -⟩ := evaluate_pages h hready storage catalog hpages
    rw [hrun]
  · rw [hlast] at hle
    have hin := (inRange_iff hp).mpr hle
    have htotal (q : ℕ) : (request.answer gaps q).page.total = request.filter.result.size :=
      tableWindow_total ..
    refine ⟨?_, (hlast p).trans (hlast 1).symm, (htotal p).trans (htotal 1).symm⟩
    exact congrArg Window.page (tableWindow_of_in hin)
  · rw [hlast] at hlt
    have hout : ¬InRange gaps request.page.size request.filter.result.size p := by
      rw [inRange_iff (show 1 ≤ p by omega)]
      omega
    have hpage : (request.answer gaps p).page = (request.answer gaps 1).page :=
      tableWindow_of_out hout
    exact ⟨congrArg (Window.keysOf · _) hpage, hpage⟩

/-- Products by brand, where the brands are in descending order, with a place reserved on each of
the first two pages. -/
theorem walk_pages_by_brand :
    let brand : Comparator :=
      ⟨0, "brand", .constant (Formula.constantProfile 0 (.ofKeys [5, 7])) (.ofKeys [5, 7]),
        [⟨"brands", .reversedPrimaryKey⟩], [(1, 5), (2, 7), (3, 5)]⟩
    let products : CandidateSet := ⟨[1, 2, 3, 4], by decide⟩
    let request : QueryRequest :=
      { entityType := "product"
        filter := .constant (Formula.constantProfile 1 products) products
        ordering := [⟨"brand", .referenced brand⟩]
        page := { size := 2, gaps := [(1, "$pageNumber <= 2")] } }
    let s : EngineState EntityStore := ⟨{ options := {}, supervisor := .disabled }, {}, {}⟩
    request.Walkable [⟨1, .compare .page .le (.constant 2)⟩] ∧ s.engine.slicers.Reachable ∧
      ∃ answer : ℕ → QueryResponse,
        (([3, 1, 2].mapM fun p =>
            (request.atPage p).evaluate EntityStore.storage "catalog").run s).1
          = .ok ([3, 1, 2].map answer) ∧
        ((List.range' 1 (answer 1).page.last).flatMap fun p => (answer p).keys)
          = SorterChain.order request.ordering products := by
  intro brand products request s
  have hparse : PageExpr.parse "$pageNumber <= 2" = .ok (.compare .page .le (.constant 2)) := by cbv
  have hgaps : Gap.ofTexts [(1, "$pageNumber <= 2")]
      = .ok [⟨1, .compare .page .le (.constant 2)⟩] := by
    rw [Gap.ofTexts, List.mapM_cons, List.mapM_nil, Gap.ofText_of_parse hparse]
    rfl
  have hwalkable : request.Walkable [⟨1, .compare .page .le (.constant 2)⟩] :=
    { prefetch_eq := rfl
      requirements_eq := rfl
      filter_built := .constant 1 products
      key_lt := by
        intro k hk
        have hlisted : k ∈ [1, 2, 3, 4] := hk
        simp only [List.mem_cons, List.not_mem_nil, or_false] at hlisted
        omega
      gaps_eq := hgaps
      gaps_sum_lt := by decide
      one_le_size := by decide
      comparators_built := by
        intro c hc
        obtain rfl : c = brand := List.mem_singleton.mp hc
        exact .constant 0 _
      comparators_nodup := List.nodup_singleton _ }
  have hfresh : ∀ c ∈ SorterChain.comparators request.ordering, s.memory.placements[c.id]? = none :=
    fun c _ => Std.HashMap.getElem?_empty
  obtain ⟨answer, hrun, -, hall, -⟩ := walk_pages (s := s) hwalkable rfl .fresh hfresh
    EntityStore.storage "catalog"
  exact ⟨hwalkable, .fresh, answer, hrun [3, 1, 2] (by decide), hall⟩

end QueryRequest

end EntityQuery
