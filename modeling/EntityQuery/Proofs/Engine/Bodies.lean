import EntityQuery.Proofs.Cache.Transparent
import EntityQuery.Proofs.Engine.Asking
import EntityQuery.Proofs.Engine.Policies
import EntityQuery.Proofs.Sort.Distinct

/-!
# The bodies of a page

The bodies of a page come from three places: entities may have been fetched first, the cache keeps
bodies, and the storage has those that are left. However the places overlap, no body is asked for
twice. The keys of a page are distinct, and those whose bodies are known already are left out
(`QueryRequest.answered_asks`). If entities were fetched first, the bodies of all matches are known
(`Evaluation.Matches.Backed`), so either the matches or the page asks for bodies, but not both.

What the cache keeps depends on what it has been used for: queries over this storage and others,
computations, sweeps, and calls whose bodies arrive at any time (`Workspace.Used`). As long as what
arrives are bodies of the entities that they were fetched for, so is what is taken from the cache
(`Workspace.Used.keepsBodies`).
-/

namespace EntityQuery

open Evaluation

variable {σ : Type} {IsBody : Scope → ℕ → ℕ → Entity → Prop} {valid : σ → Prop} {present : ℕ → Bool}
  {storage : Storage σ} {s : EngineState σ}

namespace Evaluation

/-! ## Matches -/

/-- What is known of matches and of the bodies that were asked for to find them. -/
structure Matches.Backed (present : ℕ → Bool) (IsBody : ℕ → Entity → Prop) (m : Matches)
    (asked : List ℕ) : Prop where
  /-- Bodies are kept for entities that are present, and each is a body of its entity. -/
  known : ∀ q ∈ m.known, present q.1 = true ∧ IsBody q.1 q.2
  /-- Either no bodies were asked for, or every match has one that is kept. -/
  covered : asked = [] ∨ ∀ k ∈ m.keys, k ∈ m.known.map (·.1)

variable {scope : Scope} {n : ℕ}

/-- By the filter, matches are found without bodies. -/
theorem filtered_asks (policy : PlanningPolicy) (filter : Formula)
    (hs : s.KeepsBodies IsBody valid) :
    Asks IsBody valid s (filtered policy scope filter) (filtered policy scope filter)
      (Silent fun m => m.Backed present (storage.IsCurrent valid IsBody scope) []) := by
  unfold filtered
  refine (Asks.work hs (policy.plan_bodiless scope filter)).bindSilent (fun planned t ht _ => ?_)
    silent_error
  refine (Asks.work (y := liftM planned.compute) ht
    (Workspace.bodiless_ofRun planned.compute_bodiless)).bindSilent (fun keys u hu _ => ?_)
    silent_error
  refine .pure hu ⟨rfl, fun m hm => ?_⟩
  obtain rfl := Except.ok.inj hm
  exact ⟨fun q hq => absurd hq List.not_mem_nil, .inl rfl⟩

/-- By bodies, matches are found with theirs, and each entity is asked for once. -/
theorem fetched_asks (h : storage.Reads valid scope n present IsBody)
    (hs : s.KeepsBodies IsBody valid) (p : Prefetch) :
    Asks IsBody valid s (fetched storage scope n p) (fetched storage.logged scope n p)
      fun outcome asked => asked.Sublist p.keys.keys ∧
        ∀ m, outcome = .ok m →
          m.Backed present (storage.IsCurrent valid IsBody scope) asked := by
  unfold fetched
  refine (prefetch_asks h hs p).bind (fun known t _ ht asked hasked => ?_)
    fun e asked hasked => ⟨hasked.1, fun _ herror => by cases herror⟩
  obtain ⟨hasked, hknown⟩ := hasked
  have hlist (keys : CandidateSet) :
      Leads Workspace.Bodiless (liftM (Formula.ofKeys keys) : Work Formula) :=
    Workspace.bodiless_ofRun fun m => Memory.bodiless_of_eq rfl
  refine (Asks.work ht (hlist _)).bindSilent (fun filter u hu _ => .pure hu ⟨?_, fun m hm => ?_⟩)
    fun e => ⟨?_, fun _ herror => by cases herror⟩
  · rwa [List.append_nil]
  · obtain rfl := Except.ok.inj hm
    exact ⟨hknown known rfl, .inr fun k hk => CandidateSet.mem_ofKeys.mp hk⟩
  · rwa [List.append_nil]

end Evaluation

namespace QueryRequest

variable {request : QueryRequest} {catalog : String}

/-- However matches are found, only entities that the query is limited to are asked for, and each
of them once. -/
theorem found_asks
    (h : storage.Reads valid ⟨catalog, request.entityType⟩ request.requirements present IsBody)
    (hs : s.KeepsBodies IsBody valid) (options : EngineOptions) (prefetched : Bool) :
    Asks IsBody valid s (request.found storage catalog options prefetched)
      (request.found storage.logged catalog options prefetched) fun outcome asked =>
        asked.Nodup ∧ (∀ k ∈ asked, ∃ p ∈ request.prefetch, k ∈ p.keys) ∧
          ∀ m, outcome = .ok m → m.Backed present
            (storage.IsCurrent valid IsBody ⟨catalog, request.entityType⟩) asked := by
  let scope : Scope := ⟨catalog, request.entityType⟩
  have hfiltered : Asks IsBody valid s (filtered options.policy scope request.filter)
      (filtered options.policy scope request.filter)
      (Silent fun m => m.Backed present (storage.IsCurrent valid IsBody scope) []) :=
    filtered_asks options.policy request.filter hs
  -- Where nothing is asked for, it does not matter whether the query is limited.
  have hsilent (limit : Option Prefetch) {outcome : Except Error Matches} {asked : List ℕ}
      (h : Silent (fun m => m.Backed present (storage.IsCurrent valid IsBody scope) [])
        outcome asked) :
      asked.Nodup ∧ (∀ k ∈ asked, ∃ p ∈ limit, k ∈ p.keys) ∧
        ∀ m, outcome = .ok m → m.Backed present (storage.IsCurrent valid IsBody scope) asked := by
    obtain ⟨rfl, hm⟩ := h
    exact ⟨List.nodup_nil, fun k hk => absurd hk List.not_mem_nil, hm⟩
  unfold found
  cases request.prefetch with
  | none => exact hfiltered.mono fun _ _ => hsilent none
  | some p =>
    cases prefetched with
    | false => exact hfiltered.mono fun _ _ => hsilent (some p)
    | true =>
      refine (fetched_asks h hs p).mono ?_
      rintro outcome asked ⟨hasked, hm⟩
      exact ⟨hasked.nodup p.keys.nodup_keys, fun k hk => ⟨p, rfl, hasked.subset hk⟩, hm⟩

/-! ## Pages -/

/-- Counting facets asks for no bodies. -/
theorem facets_asks (policy : PlanningPolicy) (scope : Scope) (filter : Formula)
    (facets : Option (List FacetBucket)) (hs : s.KeepsBodies IsBody valid) :
    let count {τ : Type} (buckets : List FacetBucket) : Evaluation τ FacetSummary := do
      (← policy.planFacets scope (← FacetCount.ofFilter filter buckets)).compute
    Asks IsBody valid s (facets.mapM count) (facets.mapM count) (Silent fun _ => True) := by
  intro count
  cases facets with
  | none => exact .pure hs ⟨rfl, fun _ _ => trivial⟩
  | some buckets =>
    rw [Option.mapM_some, Option.mapM_some]
    have hcount : Asks IsBody valid s (count buckets) (count buckets) (Silent fun _ => True) := by
      refine (Asks.work (y := liftM (FacetCount.ofFilter filter buckets)) hs
        (Workspace.bodiless_ofRun fun m => Memory.bodiless_of_eq rfl)).bindSilent
        (fun c t ht _ => ?_) silent_error
      refine (Asks.work ht (policy.planFacets_bodiless scope c)).bindSilent (fun c' u hu _ => ?_)
        silent_error
      exact Asks.work (y := liftM c'.compute) hu (Workspace.bodiless_ofRun c'.compute_bodiless)
    exact hcount.bindSilent (fun summary t ht _ => .pure ht ⟨rfl, fun _ _ => trivial⟩) silent_error

/-- Nor does planning an ordering. -/
theorem planOrdering_asks (policy : PlanningPolicy) (scope : Scope) (chain : SorterChain)
    (hs : s.KeepsBodies IsBody valid) :
    let plan {τ : Type} (records : MergedRecords) : Evaluation τ MergedRecords :=
      policy.planSorter scope records
    Asks IsBody valid s (SorterChain.mapPreSorted chain plan) (SorterChain.mapPreSorted chain plan)
      (Silent fun _ => True) := by
  intro plan
  refine Asks.mapM chain (fun stage t ht => ?_) hs
  obtain ⟨name, sorter⟩ := stage
  cases sorter with
  | preSorted r =>
    exact (Asks.work ht (policy.planSorter_bodiless scope r)).bindSilent
      (fun r' u hu _ => .pure hu ⟨rfl, fun _ _ => trivial⟩) silent_error
  | exact _ | primaryKey | reversedPrimaryKey | external _ | referenced _ =>
    exact .pure ht ⟨rfl, fun _ _ => trivial⟩

/-- Nor does cutting out a page. -/
theorem window_asks (page : PageRequest) (total : ℕ) (hs : s.KeepsBodies IsBody valid) :
    Asks IsBody valid s (window page total) (window page total) (Silent fun _ => True) := by
  refine Asks.silent ?_ (fun _ _ => trivial) fun log => ?_
  · rw [run_window]
    exact ⟨hs.cache, hs.store⟩
  · rw [run_window, run_window]
    rfl

/-- What is known of an answer over some matches, and of the bodies that were asked for once the
matches were known. -/
structure Answers (request : QueryRequest) (present : ℕ → Bool) (IsBody : ℕ → Entity → Prop)
    (m : Matches) (outcome : Except Error QueryResponse) (asked : List ℕ) : Prop where
  /-- No body is asked for twice. -/
  nodup : asked.Nodup
  /-- What is asked for are bodies of matches. -/
  mem : ∀ k ∈ asked, k ∈ m.keys
  /-- They are not kept already. -/
  unknown : ∀ k ∈ asked, k ∉ m.known.map (·.1)
  /-- They are those of keys on the page. -/
  page : ∀ r, outcome = .ok r → ∀ k ∈ asked, k ∈ r.keys
  /-- The page has the bodies of the keys that have one, where attributes are asked for. -/
  entities : ∀ r, outcome = .ok r → 0 < request.requirements →
    List.Forall₂ IsBody (r.keys.filter present) r.entities

/-- Bodies that are asked for are those of a page of matches, without those that are kept. -/
theorem Answers.of_sublist {IsBody : ℕ → Entity → Prop} {m : Matches}
    {outcome : Except Error QueryResponse} {keys asked : List ℕ} (hnodup : keys.Nodup)
    (hmem : ∀ k ∈ keys, k ∈ m.keys)
    (hasked : asked.Sublist (keys.filter fun k => decide (k ∉ m.known.map (·.1))))
    (hpage : ∀ r, outcome = .ok r → r.keys = keys ∧
      (0 < request.requirements → List.Forall₂ IsBody (r.keys.filter present) r.entities)) :
    Answers request present IsBody m outcome asked where
  nodup := (hnodup.filter _).sublist hasked
  mem k hk := hmem k (List.mem_of_mem_filter (hasked.subset hk))
  unknown k hk := of_decide_eq_true (List.mem_filter.mp (hasked.subset hk)).2
  page r hr k hk := by
    rw [(hpage r hr).1]
    exact List.mem_of_mem_filter (hasked.subset hk)
  entities r hr := (hpage r hr).2

/-- An answer may fail before bodies are asked for. -/
theorem Answers.error {IsBody : ℕ → Entity → Prop} (m : Matches) (e : Error) :
    Answers request present IsBody m (.error e) [] :=
  .of_sublist List.nodup_nil (fun _ hk => absurd hk List.not_mem_nil) (.refl [])
    fun _ herror => by cases herror

/-- Once the matches of a query are known, the bodies of its page are asked for, each once and only
if it is not kept already. -/
theorem answered_asks
    (h : storage.Reads valid ⟨catalog, request.entityType⟩ request.requirements present IsBody)
    (hs : s.KeepsBodies IsBody valid) (options : EngineOptions) (prefetched : Bool) {m : Matches}
    (hm : ∀ q ∈ m.known, present q.1 = true
      ∧ storage.IsCurrent valid IsBody ⟨catalog, request.entityType⟩ q.1 q.2) :
    Asks IsBody valid s (request.answered storage catalog options prefetched m)
      (request.answered storage.logged catalog options prefetched m)
      (Answers request present
        (storage.IsCurrent valid IsBody ⟨catalog, request.entityType⟩) m) := by
  let scope : Scope := ⟨catalog, request.entityType⟩
  unfold answered
  -- Up to the sorting, each step only consults the cache or the slicers.
  refine (facets_asks options.policy scope m.filter request.facets hs).bindSilent
    (fun facets s₁ hs₁ _ => ?_) (.error m)
  refine (planOrdering_asks options.policy scope request.ordering hs₁).bindSilent
    (fun ordering s₂ hs₂ _ => ?_) (.error m)
  refine (Asks.attempt (V := fun _ => True) hs₂ (initializeChain_bodiless options.policy catalog
    ordering m.keys) fun _ _ => trivial).bindSilent (fun _ s₃ hs₃ _ => ?_) (.error m)
  refine (window_asks request.page m.keys.size hs₃).bindSilent (fun page s₄ hs₄ _ => ?_) (.error m)
  -- The page lists distinct matches, whatever the comparators were initialized with.
  have hsorted (sorted : List ℕ × List ℕ)
      (h : ((Attempt.ofRun (ordering.sort m.keys page.offset
        (Word.satAdd page.offset page.limit))).run s₄.workspace).1 = .ok sorted) :
      sorted.1.Nodup ∧ ∀ k ∈ sorted.1, k ∈ m.keys := SorterChain.nodup_sort h
  refine (Asks.attempt hs₄ (Workspace.bodiless_ofRun (ordering.sort_bodiless _ _ _))
    hsorted).bindSilent (fun sorted s₅ hs₅ hkeys => ?_) (.error m)
  obtain ⟨keys, skipped⟩ := sorted
  obtain ⟨hnodup, hmem⟩ := hkeys
  by_cases hzero : request.requirements = 0
  · simp only [if_pos hzero]
    refine .pure hs₅ (.of_sublist hnodup hmem (List.nil_sublist _) fun r hr => ?_)
    obtain rfl := Except.ok.inj hr
    exact ⟨rfl, fun hrequirements => absurd hzero hrequirements.ne'⟩
  · simp only [if_neg hzero]
    refine (bodies_asks h hs₅ hm hnodup).bind
      (fun entities s₆ _ hs₆ asked hasked => .pure hs₆ ?_) fun e asked hasked => ?_
    · rw [List.append_nil]
      refine .of_sublist hnodup hmem hasked.1 fun r hr => ?_
      obtain rfl := Except.ok.inj hr
      exact ⟨rfl, fun _ => hasked.2 entities rfl⟩
    · exact .of_sublist hnodup hmem hasked.1 fun _ herror => by cases herror

/-- A query asks for no body twice, and only for those of keys on its page and of entities that it
is limited to. Its page has the bodies of the keys that have one. -/
theorem evaluate_asks
    (h : storage.Reads valid ⟨catalog, request.entityType⟩ request.requirements present IsBody)
    (hs : s.KeepsBodies IsBody valid) :
    Asks IsBody valid s (request.evaluate storage catalog)
      (request.evaluate storage.logged catalog) fun outcome asked => asked.Nodup ∧
        ∀ r, outcome = .ok r →
          (∀ k ∈ asked, k ∈ r.keys ∨ ∃ p ∈ request.prefetch, k ∈ p.keys) ∧
          (0 < request.requirements → List.Forall₂
            (storage.IsCurrent valid IsBody ⟨catalog, request.entityType⟩)
            (r.keys.filter present) r.entities) := by
  refine Asks.look (fun log => rfl) ?_
  refine (found_asks h hs _ _).bind (fun m t _ ht asked hasked => ?_) fun e asked hasked =>
    ⟨hasked.1, fun _ herror => by cases herror⟩
  obtain ⟨hnodup, hlimited, hreads⟩ := hasked
  have hm := hreads m rfl
  refine (answered_asks h ht _ _ hm.known).mono fun outcome more hmore => ?_
  have hdisjoint : asked.Disjoint more := by
    rcases hm.covered with rfl | hcovered
    · exact List.disjoint_nil_left more
    · -- Every match has a body that is kept, so no more are asked for.
      exact fun k _ hk => hmore.unknown k hk (hcovered k (hmore.mem k hk))
  refine ⟨hnodup.append hmore.nodup hdisjoint, fun r hr => ⟨fun k hk => ?_, hmore.entities r hr⟩⟩
  rcases List.mem_append.mp hk with hfirst | hlater
  · exact .inr (hlimited k hfirst)
  · exact .inl (hmore.page r hr k hlater)

end QueryRequest

/-! ## Caches in use -/

namespace Computation

/-- Running a computation brings no body. -/
theorem compute_bodiless (x : Computation) : Leads Memory.Bodiless x.compute := by
  match x with
  | filter f => exact f.compute_bodiless.bind fun _ => .pure _
  | facets c => exact c.compute_bodiless.bind fun _ => .pure _
  | order r => exact r.compute_bodiless.bind fun _ => .pure _

/-- Nor does analysing one. -/
theorem analyse_bodiless (scope : Scope) (x : Computation) :
    Leads Workspace.Bodiless (x.analyse scope) := by
  match x with
  | filter f => exact (PlanningPolicy.default.plan_bodiless scope f).bind fun _ => .pure _
  | facets c => exact (PlanningPolicy.default.planFacets_bodiless scope c).bind fun _ => .pure _
  | order r => exact (PlanningPolicy.default.planSorter_bodiless scope r).bind fun _ => .pure _

end Computation

/-- The states that a cache can get into, as long as all bodies that arrive are bodies of the
entities that they were fetched for, in the versions that they tell. -/
inductive Workspace.Used (IsBody : Scope → ℕ → ℕ → Entity → Prop) : Workspace → Prop
  /-- The cache is made. -/
  | start {options : CacheOptions} {supervisor : Supervisor} {memory : Memory}
    (hsupervisor : Supervisor.ofOptions options = .ok supervisor) (hmemory : memory.entries = #[]) :
    Used IsBody ⟨supervisor, memory⟩
  /-- A query is answered, by any engine with the cache and over any storage. -/
  | evaluate {σ : Type} {s : EngineState σ} (h : Used IsBody s.workspace) {storage : Storage σ}
    {valid : σ → Prop} {present : ℕ → Bool} (request : QueryRequest) (catalog : String)
    (hreads : storage.Reads valid ⟨catalog, request.entityType⟩ request.requirements present IsBody)
    (hstore : valid s.store) :
    Used IsBody ((request.evaluate storage catalog).run s).2.workspace
  /-- Computations are analysed or run, or the cache is swept. -/
  | event {w : Workspace} (h : Used IsBody w) (event : CacheEvent)
    (helsewhere : ∀ memory, event = .elsewhere memory → memory.entries = w.memory.entries) :
    Used IsBody (CacheHistory.next ⟨w, []⟩ event).workspace
  /-- A call for a body begins. -/
  | find {w : Workspace} (h : Used IsBody w) (call : BodyCall) : Used IsBody (call.find w).2
  /-- The body of a call arrives, and an observer of its entry is told. -/
  | arrive {w : Workspace} (h : Used IsBody w) {o : Observer} {scope : Scope} {k : ℕ}
    (hentry : ∃ e, w.memory.entries[o.entry]? = some e ∧ e.key = bodyKey scope k) {body : Entity}
    (hbody : IsBody scope k body.version body) :
    Used IsBody { w with memory := BodySource.report (some o) (some body) w.memory }

/-- At any time, a cache keeps bodies of the right entities. -/
theorem Workspace.Used.keepsBodies {w : Workspace} (h : w.Used IsBody) : w.KeepsBodies IsBody := by
  induction h with
  | @start options supervisor memory hsupervisor hmemory =>
    refine ⟨fun t ht i hi => ?_, fun i e v body scope k he => ?_⟩
    · rw [Supervisor.slots_of_ofOptions hsupervisor ht] at hi
      exact absurd hi List.not_mem_nil
    · have hempty : memory.entries[i]? = some e := he
      rw [hmemory] at hempty
      exact absurd hempty (by simp)
  | evaluate _ request catalog hreads hstore ih =>
    exact (QueryRequest.evaluate_asks hreads ⟨ih, hstore⟩).keeps.cache
  | @event w _ event helsewhere ih =>
    rcases event with ⟨scope, x⟩ | x | ⟨kind, held⟩ | memory
    · exact ih.of_bodiless (x.analyse_bodiless scope w)
    · exact ih.of_bodiless (bodiless_ofRun x.compute_bodiless w)
    · exact ih.of_bodiless (sweep_bodiless kind held w)
    · have hentries : memory.entries = w.memory.entries := helsewhere memory rfl
      exact ih.of_bodiless fun hw =>
        ⟨fun t ht => (hw t ht).mono (Memory.bodiless_of_eq hentries).keeps,
          Memory.bodiless_of_eq hentries⟩
  | @find w _ call ih =>
    obtain ⟨htabled, hbodiless, -⟩ := ih.tabled.find call
    exact ih.of_bodiless fun _ => ⟨htabled, hbodiless⟩
  | arrive _ hentry hbody ih =>
    refine ih.report (fun o ho => ?_) hbody
    obtain rfl := Option.some.inj ho
    exact hentry

namespace QueryRequest

/-- A query that asks for attributes gets the bodies that belong to its page, and reads none of them
twice. Whatever the cache has been used for and however the query is answered, the bodies of a
response are those of its keys that are present, one for each and in the order of the keys, and each
is a body of its entity in the version that the storage has of it. The storage is asked for no body
more than once, and only for those of keys on the page and of entities that the query is limited
to. -/
theorem evaluate_reads_once (request : QueryRequest) (catalog : String)
    (hkey : ∀ k v e, IsBody ⟨catalog, request.entityType⟩ k v e → e.primaryKey = k)
    (hrequirements : 0 < request.requirements)
    (hreads : storage.Reads valid ⟨catalog, request.entityType⟩ request.requirements present IsBody)
    (hused : s.workspace.Used IsBody) (hstore : valid s.store) :
    let answer := (request.evaluate storage catalog).run s
    ∃ asked : List ℕ,
      (∀ log, (request.evaluate storage.logged catalog).run (s.withLog log)
        = (answer.1, answer.2.withLog (log ++ asked))) ∧
      asked.Nodup ∧ ∀ r, answer.1 = .ok r →
        List.Forall₂ (storage.IsCurrent valid IsBody ⟨catalog, request.entityType⟩)
          (r.keys.filter present) r.entities ∧
        r.entities.map (·.primaryKey) = r.keys.filter present ∧
        ((∀ k ∈ r.keys, present k = true) → r.entities.map (·.primaryKey) = r.keys) ∧
        ∀ k ∈ asked, k ∈ r.keys ∨ ∃ p ∈ request.prefetch, k ∈ p.keys := by
  dsimp only
  obtain ⟨-, asked, ⟨hnodup, hpage⟩, hlogged⟩ :=
    evaluate_asks hreads ⟨hused.keepsBodies, hstore⟩
  refine ⟨asked, hlogged, hnodup, fun r hr => ?_⟩
  obtain ⟨hasked, hentities⟩ := hpage r hr
  have hbodies := hentities hrequirements
  have hkeys : r.entities.map (·.primaryKey) = r.keys.filter present := by
    have hsame : List.Forall₂ (fun k e => k = e.primaryKey) (r.keys.filter present) r.entities :=
      hbodies.imp fun k e ⟨_, v, _, _, hbody⟩ => (hkey k v e hbody).symm
    rw [← List.forall₂_map_right_iff, List.forall₂_eq_eq_eq] at hsame
    exact hsame.symm
  refine ⟨hbodies, hkeys, fun hall => ?_, hasked⟩
  rw [hkeys, List.filter_eq_self.mpr hall]

/-- A product, with its code or without attributes. -/
def product (k : ℕ) (coded : Bool) : Entity :=
  ⟨"product", k, 1, if coded then [("code", .null)] else []⟩

/-- A storage of three products, which completes bodies that have no code. -/
def products : Storage Unit where
  version := fun _ _ k => if k ≤ 3 then some 1 else none
  fetch := fun _ k _ => return some (product k true)
  enrich := fun e n =>
    return if e.attributes.length < n then some (product e.primaryKey true) else none

/-- A cache after calls for the first two products. -/
def afterCalls (w : Workspace) : Workspace :=
  let call (k : ℕ) : BodyCall := ⟨⟨"catalog", "product"⟩, k, 1⟩
  ((call 2).find ((call 1).find w).2).2

/-- A cache after the bodies of the first two products have arrived, the second one without its
code. -/
def afterArrivals (first second : Observer) (w : Workspace) : Workspace :=
  let arrive (o : Observer) (e : Entity) (w : Workspace) : Workspace :=
    { w with memory := BodySource.report (some o) (some e) w.memory }
  arrive second (product 2 false) (arrive first (product 1 true) w)

/-- A cache that keeps the bodies of the first two products, the second one without its code. Each
has arrived twice: when it was followed only, and again after it was promoted. -/
def keptProducts : Workspace :=
  let options : CacheOptions := { minimalUsage := 0 }
  let measured := afterArrivals (.adept 0) (.adept 1) (afterCalls ⟨⟨options, some { options }⟩, {}⟩)
  let promoted := (CacheHistory.next ⟨measured, []⟩ (.sweep .anteroom fun _ => false)).workspace
  afterArrivals (.recording 0) (.recording 1) (afterCalls promoted)

/-- A cache can get there. -/
theorem used_keptProducts {IsBody : Scope → ℕ → ℕ → Entity → Prop}
    (hbody : ∀ scope k coded, IsBody scope k 1 (product k coded)) : keptProducts.Used IsBody := by
  have hmade : Supervisor.ofOptions { minimalUsage := 0 }
      = .ok ⟨{ minimalUsage := 0 }, some { options := { minimalUsage := 0 } }⟩ := rfl
  have hstart : Workspace.Used IsBody
      ⟨⟨{ minimalUsage := 0 }, some { options := { minimalUsage := 0 } }⟩, {}⟩ := .start hmade rfl
  have hcalled {w : Workspace} (hw : w.Used IsBody) : (afterCalls w).Used IsBody :=
    (hw.find _).find _
  have htold (first second : Observer) {w : Workspace} (hw : w.Used IsBody)
      (hkeys : [first.entry, second.entry].map (fun i => w.memory.entries[i]?.map Entry.key)
        = [1, 2].map fun k => some (bodyKey ⟨"catalog", "product"⟩ k)) :
      (afterArrivals first second w).Used IsBody := by
    simp only [List.map_cons, List.map_nil, List.cons.injEq, and_true] at hkeys
    obtain ⟨hfirst, hsecond⟩ := hkeys
    obtain ⟨e, he, hkey⟩ := Option.map_eq_some_iff.1 hfirst
    obtain ⟨e', he', hkey'⟩ := Option.map_eq_some_iff.1 hsecond
    have hkeep := Entries.Keeps.report w.memory.entries first (BodySource.outcome (product 1 true))
    exact (hw.arrive ⟨e, he, hkey⟩ (hbody _ 1 true)).arrive
      (hkeep.exists_key ⟨e', he', hkey'⟩) (hbody _ 2 false)
  have hmeasured := htold (.adept 0) (.adept 1) (hcalled hstart) (by cbv)
  have hpromoted := hmeasured.event (.sweep .anteroom fun _ => false) fun _ h => by cases h
  exact htold (.recording 0) (.recording 1) (hcalled hpromoted) (by cbv)

/-- A query for the products by their bodies, one of which is missing. -/
def limitedQuery : QueryRequest :=
  { entityType := "product"
    filter := .constant (Formula.constantProfile 0 (.ofKeys [1])) (.ofKeys [1])
    page := { size := 2 }
    prefetch := some ⟨⟨[1, 2, 3, 4], by decide⟩, fun _ => true⟩
    requirements := 1 }

/-- The bodies that are fetched first for it. -/
def limitedBodies : List (ℕ × Entity) :=
  [(1, product 1 true), (2, product 2 true), (3, product 3 true)]

/-- Its answer. -/
def limitedAnswer : QueryResponse :=
  ⟨[1, 2], [product 1 true, product 2 true], windowOf [] 1 2 3, none, true⟩

/-- Once these bodies are known, the query is answered without others. -/
theorem answered_limitedQuery {τ : Type} (storage : Storage τ) {s : EngineState τ}
    (hslicers : s.engine.slicers = {}) (options : EngineOptions) (filter : Formula) :
    ∃ t, (limitedQuery.answered storage "catalog" options true
        ⟨filter, .ofKeys [1, 2, 3], limitedBodies⟩).run s = (.ok limitedAnswer, t)
      ∧ t.store = s.store := by
  have hgaps : Gap.ofTexts limitedQuery.page.gaps = .ok [] := rfl
  have hsound : s.engine.slicers.Sound := hslicers ▸ SlicerRegistry.Reachable.fresh.sound
  obtain ⟨slicers, hwindow, -⟩ :=
    Evaluation.window_run hsound limitedQuery.page hgaps (by decide) (by decide) 3
  let s₁ : EngineState τ := { s with engine := { s.engine with slicers } }
  have hwindow : (window limitedQuery.page (CandidateSet.ofKeys [1, 2, 3]).size).run s
      = (.ok (windowOf [] 1 2 3), s₁) := by
    rw [show (CandidateSet.ofKeys [1, 2, 3]).size = 3 by cbv]
    exact hwindow
  have hprepared : ∀ stage ∈ ([] : SorterChain),
      stage.sorter.Prepared s₁.memory (.ofKeys [1, 2, 3]) :=
    fun stage hstage => absurd hstage List.not_mem_nil
  obtain ⟨skipped, m, hsorted, -⟩ := Evaluation.sorted_run .nil hprepared (windowOf [] 1 2 3)
  have horder : (windowOf [] 1 2 3).keysOf (SorterChain.order [] (.ofKeys [1, 2, 3]))
      = [1, 2] := by cbv
  rw [horder] at hsorted
  let s₂ : EngineState τ := s₁.withWorkspace { s₁.workspace with memory := m }
  have hbodies : (bodies storage ⟨"catalog", "product"⟩ 1 (.ofList limitedBodies) [1, 2]).run s₂
      = (.ok [product 1 true, product 2 true], s₂) := by
    simp only [limitedBodies, bodies, knownBody, Std.HashMap.getElem?_erase,
      Std.HashMap.ofList_eq_insertMany_empty, Std.HashMap.insertMany_cons,
      Std.HashMap.insertMany_nil, Std.HashMap.getElem?_insert]
    rfl
  refine ⟨s₂, ?_, rfl⟩
  unfold answered
  refine (run_bind_of_ok (x := pure none) rfl _).trans ?_
  refine (run_bind_of_ok (x := pure []) rfl _).trans ?_
  refine (run_bind_of_ok (x := pure ()) rfl _).trans ?_
  refine (run_bind_of_ok hwindow _).trans ?_
  refine (run_bind_of_ok hsorted _).trans ?_
  exact run_bind_of_ok hbodies _

/-- Where these bodies are fetched first, that is the answer to the query. -/
theorem evaluate_limitedQuery {τ : Type} (storage : Storage τ) {s t : EngineState τ}
    (hpolicy : s.engine.options = { policy := .prefetchFavouring })
    (hprefetch : (Evaluation.prefetch storage ⟨"catalog", "product"⟩ 1
      ⟨⟨[1, 2, 3, 4], by decide⟩, fun _ => true⟩).run s = (.ok limitedBodies, t))
    (hslicers : t.engine.slicers = {}) :
    ∃ u, (limitedQuery.evaluate storage "catalog").run s = (.ok limitedAnswer, u)
      ∧ u.store = t.store := by
  have hdecided : (decision s.engine.options limitedQuery).any (·.prefetch) = true := by
    rw [hpolicy]
    exact PrefetchDecision.decide_prefetchFavouring _ _ _ _ _
  have hget : (get : Evaluation τ (EngineState τ)).run s = (.ok s, s) := rfl
  obtain ⟨filter, t', hfound, hslicers', hstore⟩ : ∃ filter t',
      (limitedQuery.found storage "catalog" s.engine.options true).run s
        = (.ok ⟨filter, .ofKeys [1, 2, 3], limitedBodies⟩, t')
        ∧ t'.engine.slicers = {} ∧ t'.store = t.store := by
    exact ⟨_, _, (run_bind_of_ok hprefetch _).trans (run_bind_of_ok rfl _), hslicers, rfl⟩
  obtain ⟨u, hanswered, hsame⟩ :=
    answered_limitedQuery storage hslicers' s.engine.options filter
  refine ⟨u, ?_, hsame.trans hstore⟩
  refine (run_bind_of_ok hget _).trans ?_
  dsimp only
  rw [hdecided]
  exact (run_bind_of_ok hfound _).trans hanswered

/-- A query limited to four products, one of which is missing. The body of the first one is kept,
that of the second one is kept and completed, and only that of the third one is asked for, although
it is not on the page. -/
theorem evaluate_reads_once_missing :
    let s : EngineState Unit :=
      ⟨{ options := { policy := .prefetchFavouring }, supervisor := keptProducts.supervisor },
        keptProducts.memory, ()⟩
    let answer := (limitedQuery.evaluate products "catalog").run s
    ∃ r, answer.1 = .ok r ∧ r.prefetched = true ∧ r.keys = [1, 2] ∧
      r.entities = [product 1 true, product 2 true] ∧
      r.entities.map (·.primaryKey) = r.keys.filter (fun k => decide (k ≤ 3)) ∧
      (limitedQuery.evaluate products.logged "catalog").run (s.withLog [])
        = (answer.1, answer.2.withLog [3]) ∧
      ∀ k ∈ [3], k ∈ r.keys ∨ ∃ p ∈ limitedQuery.prefetch, k ∈ p.keys := by
  intro s answer
  let scope : Scope := ⟨"catalog", "product"⟩
  let IsBody (_ : Scope) (k v : ℕ) (e : Entity) : Prop := e.primaryKey = k ∧ e.version = v
  have hversion {k v : ℕ} (h : products.version () "product" k = some v) : v = 1 := by
    obtain ⟨-, h⟩ := Option.ite_none_right_eq_some.mp h
    exact (Option.some.inj h).symm
  have hreads : products.Reads (fun _ => True) scope 1 (fun k => decide (k ≤ 3)) IsBody :=
    { version := fun _ k _ => by by_cases hk : k ≤ 3 <;> simp [products, hk]
      fetch := fun _ k v body _ hv hbody =>
        ⟨product k true, (Except.ok.inj hbody).symm, ⟨rfl, (hversion hv).symm⟩, rfl, rfl⟩
      enrich := fun _ k v e richer _ hv hbody hricher => by
        have hricher : (if e.attributes.length < 1 then some (product e.primaryKey true) else none)
            = some richer := Except.ok.inj hricher
        obtain ⟨-, hricher⟩ := Option.ite_none_right_eq_some.mp hricher
        obtain rfl := Option.some.inj hricher
        exact ⟨hbody.1, (hversion hv).symm⟩
      valid_fetch := fun _ _ _ => trivial
      valid_enrich := fun _ _ _ => trivial }
  have hused : s.workspace.Used IsBody := used_keptProducts fun _ _ _ => ⟨rfl, rfl⟩
  obtain ⟨asked, hlogged, -, hpage⟩ := evaluate_reads_once limitedQuery "catalog"
    (fun _ _ _ h => h.1) (by decide) hreads hused trivial
  obtain ⟨u, hrun, -⟩ :=
    evaluate_limitedQuery products (s := s) rfl (Prod.ext (by cbv) rfl) (by cbv)
  obtain ⟨u', hrun', hstore⟩ :=
    evaluate_limitedQuery products.logged (s := s.withLog []) rfl (Prod.ext (by cbv) rfl) (by cbv)
  -- The storage that takes keys down has taken down one.
  obtain rfl : asked = [3] := by
    have hasked : asked = u'.store.2 := congrArg (·.2.store.2) ((hlogged []).symm.trans hrun')
    rw [hasked, hstore]
    cbv
  obtain ⟨-, hkeys, -, hasked⟩ := hpage _ (congrArg Prod.fst hrun)
  exact ⟨_, congrArg Prod.fst hrun, rfl, rfl, rfl, hkeys, hlogged [], hasked⟩

end QueryRequest

end EntityQuery
