import EntityQuery.Proofs.Engine.Agreement

/-!
# Evaluation steps that cannot fail

Most steps of an evaluation succeed on an engine without a cache whose storage answers, and what
they give does not depend on the policy. `Evaluation.Settles` says so of a step, and it is put
together from what is known of planning and computing without a cache. What is asked of the storage
is `Storage.Serves`: for each key it has one answer, whatever it was asked before.

The matches of a query are found in two quite different ways. By the filter or by bodies, they are
the same keys, and what comes with them says the same about the filter (`Evaluation.Matches.For`).
-/

namespace EntityQuery

variable {σ : Type}

/-- Whether a storage never fails and has one answer for each entity of some type, as long as it is
in a valid state. -/
structure Storage.Serves (storage : Storage σ) (valid : σ → Prop) (entityType : String)
    (requirements : ℕ) (bodyOf : ℕ → Option Entity) : Prop where
  /-- There is no answer for an entity that there is not. -/
  absent : ∀ store k, valid store → storage.version store entityType k = none → bodyOf k = none
  /-- Any other entity is fetched with the answer. -/
  present : ∀ store k version, valid store → storage.version store entityType k = some version →
    ∃ store', (storage.fetch entityType k requirements).run store = (.ok (bodyOf k), store') ∧
      valid store'

namespace EntityStore

/-- The body of an entity of some type, if there is one, with some attributes. -/
def bodyOf (store : EntityStore) (entityType : String) (attributes k : ℕ) : Option Entity :=
  (store.version entityType k).bind fun _ => (store.find? k).map (·.cut attributes)

/-- The body of an entity that there is, is that entity with the attributes. -/
theorem bodyOf_of_find? {store : EntityStore} {k : ℕ} {e : Entity} (h : store.find? k = some e)
    (attributes : ℕ) : store.bodyOf e.entityType attributes k = some (e.cut attributes) := by
  have hversion : store.version e.entityType k = some e.version := by
    rw [version, h]
    exact if_pos rfl
  rw [bodyOf, hversion, Option.bind_some, h, Option.map_some]

/-- Whether a storage in memory has the entities of another one and is not told to fail. -/
structure ReadsAs (origin store : EntityStore) : Prop where
  /-- The entities are the same. -/
  entities_eq : store.entities = origin.entities
  /-- No body is unreadable. -/
  unreadable_eq : store.unreadable = ∅
  /-- No body is gone. -/
  vanished_eq : store.vanished = ∅

/-- A storage in memory that is not told to fail has one answer for each entity. -/
theorem serves (origin : EntityStore) (entityType : String) (attributes : ℕ) :
    storage.Serves origin.ReadsAs entityType attributes (origin.bodyOf entityType attributes) := by
  have hversion {store : EntityStore} (h : origin.ReadsAs store) (k : ℕ) :
      storage.version store entityType k = origin.version entityType k := by
    have hfind : store.find? k = origin.find? k := by
      rw [find?, find?, h.entities_eq]
    have hstored : storage.version store entityType k = store.version entityType k := rfl
    rw [hstored, version, version, hfind]
  refine ⟨fun store k h habsent => ?_, fun store k v h hpresent => ?_⟩
  · rw [hversion h] at habsent
    rw [bodyOf, habsent, Option.bind_none]
  · rw [hversion h] at hpresent
    refine ⟨{ store with fetches := store.fetches + 1 }, ?_,
      h.entities_eq, h.unreadable_eq, h.vanished_eq⟩
    have hrun : (fetch k attributes).run store
        = (if store.unreadable.contains k then throw (.fetch s!"cannot read {k}")
            else if store.vanished.contains k then return none
            else return (store.find? k).map (·.cut attributes)
            : Stored EntityStore (Option Entity)).run { store with fetches := store.fetches + 1 } :=
      rfl
    refine hrun.trans ?_
    rw [bodyOf, hpresent, Option.bind_some, h.unreadable_eq, h.vanished_eq, find?, find?,
      h.entities_eq]
    rfl

end EntityStore

/-- Whether a query that is limited to some entities is limited to its matches: all of them are
among the entities, and the predicate accepts the bodies of no others. -/
structure Prefetch.Covers (p : Prefetch) (filter : Formula) (bodyOf : ℕ → Option Entity) :
    Prop where
  /-- The entities include all matches. -/
  keys : ∀ k ∈ filter.result, k ∈ p.keys
  /-- The predicate holds of the body of an entity exactly when the entity matches. -/
  predicate : ∀ k ∈ p.keys, ∀ e, bodyOf k = some e → (p.predicate e = true ↔ k ∈ filter.result)

/-- Whether a count of facets is over some filter and comes to some summary. -/
structure FacetCount.Counts (filter : Formula) (summary : FacetSummary) (c : FacetCount) :
    Prop where
  /-- The count is over the filter. -/
  filter_eq : c.filter = filter
  /-- What it comes to is the summary. -/
  result_eq : c.result.get = summary

/-- An engine at work that has no cache, and whose slicers and storage may be relied on. -/
structure EngineState.Idle (valid : σ → Prop) (s : EngineState σ) : Prop where
  /-- There is no cache. -/
  uncached : s.engine.supervisor.isEnabled = false
  /-- The slicers are sound. -/
  slicers : s.engine.slicers.Sound
  /-- The storage is in a valid state. -/
  store : valid s.store

namespace Evaluation

variable {valid : σ → Prop} {α β ι : Type}

/-- Whether a step succeeds without a cache, with a value of some kind, and places no comparator. -/
def Settles (valid : σ → Prop) (x : Evaluation σ α) (P : α → Prop) : Prop :=
  ∀ s : EngineState σ, s.Idle valid → ∃ a s', x.run s = (.ok a, s') ∧ P a ∧ s'.Idle valid ∧
    s'.memory.placements = s.memory.placements

namespace Settles

variable {P : α → Prop} {Q : β → Prop}

/-- A value settles. -/
theorem pure {a : α} (h : P a) : Settles valid (Pure.pure a) P :=
  fun s hs => ⟨a, s, rfl, h, hs, rfl⟩

/-- Steps that settle do so one after the other. -/
theorem bind {x : Evaluation σ α} {f : α → Evaluation σ β} (hx : Settles valid x P)
    (hf : ∀ a, P a → Settles valid (f a) Q) : Settles valid (x >>= f) Q := by
  intro s hs
  obtain ⟨a, s₁, hrun₁, ha, hs₁, hplaces₁⟩ := hx s hs
  obtain ⟨b, s₂, hrun₂, hb, hs₂, hplaces₂⟩ := hf a ha s₁ hs₁
  exact ⟨b, s₂, (run_bind_of_ok hrun₁ f).trans hrun₂, hb, hs₂, hplaces₂.trans hplaces₁⟩

/-- What leaves cache and places alone settles. -/
theorem lift {x : Work α} (h : ∀ w, w.supervisor.isEnabled = false → P (x w).1 ∧ w.Steady (x w).2) :
    Settles valid (liftM x) P := by
  intro s hs
  obtain ⟨hvalue, hsteady⟩ := h s.workspace hs.uncached
  have hengine := (EngineState.Steady.of_workspace hsteady).engine_eq
  refine ⟨_, s.withWorkspace (x s.workspace).2, run_work rfl, hvalue, ⟨?_, ?_, hs.store⟩,
    hsteady.placements_eq⟩
  · rw [hengine]
    exact hs.uncached
  · rw [hengine]
    exact hs.slicers

/-- Steps for the members of a list settle one after the other. -/
theorem mapM {f : ι → Evaluation σ β} {P : ι → β → Prop} {l : List ι}
    (h : ∀ i ∈ l, Settles valid (f i) (P i)) : Settles valid (l.mapM f) (List.Forall₂ P l) := by
  induction l with
  | nil => exact pure .nil
  | cons i rest ih =>
    rw [List.mapM_cons]
    refine (h i List.mem_cons_self).bind fun b hb => ?_
    refine (ih fun j hj => h j (List.mem_cons_of_mem i hj)).bind fun bs hbs => ?_
    exact pure (.cons hb hbs)

/-- Steps that may leave a member of a list out settle one after the other. -/
theorem filterMapM {f : ι → Evaluation σ (Option β)} {g : ι → Option β} {l : List ι}
    (h : ∀ i ∈ l, Settles valid (f i) (· = g i)) :
    Settles valid (l.filterMapM f) (· = l.filterMap g) := by
  induction l with
  | nil => exact pure rfl
  | cons i rest ih =>
    have hrest := ih fun j hj => h j (List.mem_cons_of_mem i hj)
    rw [List.filterMapM_cons]
    refine (h i List.mem_cons_self).bind fun b hb => ?_
    cases b with
    | none =>
      rw [List.filterMap_cons_none hb.symm]
      exact hrest
    | some b =>
      rw [List.filterMap_cons_some hb.symm]
      exact hrest.bind fun bs hbs => pure (by rw [hbs])

end Settles

/-! ## Bodies -/

variable {storage : Storage σ} {scope : Scope} {requirements : ℕ} {bodyOf : ℕ → Option Entity}

/-- A body is what the storage answers. -/
theorem body_settles (h : storage.Serves valid scope.entityType requirements bodyOf) (k : ℕ) :
    Settles valid (body storage scope requirements k) (· = bodyOf k) := by
  intro s hs
  have htable : s.engine.supervisor.table = none := by
    simpa [Supervisor.isEnabled] using hs.uncached
  unfold body
  rw [run_bind_of_ok (x := get) rfl]
  cases hversion : storage.version s.store scope.entityType k with
  | none => exact ⟨none, s, rfl, (h.absent _ _ hs.store hversion).symm, hs, rfl⟩
  | some version =>
    obtain ⟨store, hfetch, hvalid⟩ := h.present _ _ _ hs.store hversion
    have hfind : (liftM (BodySource.find scope k version) : Evaluation σ BodySource).run s
        = (.ok (.storage none), s) := run_work (BodySource.find_disabled htable)
    have hstored : (ofStored (storage.fetch scope.entityType k requirements)
        : Evaluation σ (Option Entity)).run s = (.ok (bodyOf k), { s with store }) := by
      have hrun : (ofStored (storage.fetch scope.entityType k requirements)
          : Evaluation σ (Option Entity)).run s
            = (((storage.fetch scope.entityType k requirements).run s.store).1,
              { s with
                store := ((storage.fetch scope.entityType k requirements).run s.store).2 }) :=
        rfl
      rw [hrun, hfetch]
    -- Nobody wants to be told of the body, so the memory stays as it is.
    have hreport : BodySource.report none (bodyOf k) s.memory = s.memory := by
      cases bodyOf k with
      | none => rfl
      | some e => rfl
    refine ⟨bodyOf k, { s with store }, ?_, rfl, ⟨hs.uncached, hs.slicers, hvalid⟩, rfl⟩
    rw [run_bind_of_ok hfind]
    refine (run_bind_of_ok hstored _).trans ?_
    exact congrArg (fun memory => (Except.ok (bodyOf k), { s with store, memory })) hreport

/-- The entities that a query is limited to are fetched and filtered by their bodies. -/
theorem prefetch_settles (h : storage.Serves valid scope.entityType requirements bodyOf)
    (p : Prefetch) :
    Settles valid (prefetch storage scope requirements p) (· = p.keys.keys.filterMap fun k =>
      (bodyOf k).bind fun e => if p.predicate e then some (k, e) else none) := by
  refine Settles.filterMapM fun k _ => (body_settles h k).bind fun answer hanswer => ?_
  rw [← hanswer]
  cases answer with
  | none => exact .pure rfl
  | some e => exact .pure rfl

/-- A table of pairs has no other values than the pairs have. -/
theorem mem_of_getElem?_ofList {l : List (ℕ × β)} {k : ℕ} {v : β}
    (h : (Std.HashMap.ofList l)[k]? = some v) : (k, v) ∈ l := by
  have hinsert (rest : List (ℕ × β)) (m : Std.HashMap ℕ β)
      (hm : (m.insertMany rest)[k]? = some v) : m[k]? = some v ∨ (k, v) ∈ rest := by
    induction rest generalizing m with
    | nil => exact .inl hm
    | cons p rest ih =>
      obtain ⟨k', v'⟩ := p
      rw [Std.HashMap.insertMany_cons] at hm
      rcases ih _ hm with hm | hrest
      · rw [Std.HashMap.getElem?_insert] at hm
        split_ifs at hm with hsame
        · rw [← eq_of_beq hsame, ← Option.some.inj hm]
          exact .inr List.mem_cons_self
        · exact .inl hm
      · exact .inr (List.mem_cons_of_mem _ hrest)
  rw [Std.HashMap.ofList_eq_insertMany_empty] at h
  rcases hinsert l ∅ h with hempty | hmem
  · rw [Std.HashMap.getElem?_empty] at hempty
    exact absurd hempty nofun
  · exact hmem

/-- A body is what the storage answers, whether it was fetched before or not. -/
theorem knownBody_settles (h : storage.Serves valid scope.entityType requirements bodyOf)
    {known : Std.HashMap ℕ Entity} {k : ℕ} (hknown : ∀ e, known[k]? = some e → bodyOf k = some e) :
    Settles valid (knownBody storage scope requirements known k) (· = bodyOf k) := by
  unfold knownBody
  cases hlookup : known[k]? with
  | none => exact body_settles h k
  | some e => exact .pure (hknown e hlookup).symm

/-- Bodies are what the storage answers, and it makes no difference that they are taken out of those
that were fetched before. -/
theorem bodies_settles (h : storage.Serves valid scope.entityType requirements bodyOf)
    {known : Std.HashMap ℕ Entity} (hknown : ∀ k e, known[k]? = some e → bodyOf k = some e)
    (keys : List ℕ) :
    Settles valid (bodies storage scope requirements known keys) (· = keys.filterMap bodyOf) := by
  induction keys generalizing known with
  | nil => exact .pure rfl
  | cons k rest ih =>
    have hrest : ∀ k' e, (known.erase k)[k']? = some e → bodyOf k' = some e := by
      intro k' e hlookup
      rw [Std.HashMap.getElem?_erase] at hlookup
      split_ifs at hlookup
      exact hknown k' e hlookup
    refine (knownBody_settles h (hknown k)).bind fun found hfound => ?_
    refine (ih hrest).bind fun entities hentities => .pure ?_
    rw [hfound, hentities]
    cases hbody : bodyOf k with
    | none => rw [List.filterMap_cons_none hbody]; rfl
    | some e => rw [List.filterMap_cons_some hbody]; rfl

/-! ## Matches, facets and orderings -/

variable (policy : PlanningPolicy) {filter : Formula}

/-- What is known of the matches of a filter, however they were found. -/
structure Matches.For (filter : Formula) (bodyOf : ℕ → Option Entity) (m : Matches) : Prop where
  /-- The matches are the result of the filter. -/
  keys_eq : m.keys = filter.result
  /-- What stands for the filter is a plan of it. -/
  isPlan : filter.IsPlan m.filter
  /-- The bodies that were fetched on the way are those that the storage has. -/
  known : ∀ p ∈ m.known, bodyOf p.1 = some p.2

/-- So are those that are looked up among them. -/
theorem Matches.For.known_ofList {m : Matches} (h : m.For filter bodyOf) (k : ℕ) (e : Entity)
    (hlookup : (Std.HashMap.ofList m.known)[k]? = some e) : bodyOf k = some e :=
  h.known (k, e) (mem_of_getElem?_ofList hlookup)

/-- Computing a formula gives its result. -/
theorem compute_settles {f : Formula} (hf : f.Built .any) :
    Settles valid (liftM f.compute) (· = f.result) :=
  Settles.lift (x := liftM f.compute) fun w _ =>
    ⟨rfl, .of_memory w (hf.placements_visit w.memory)⟩

/-- The matches of a filter are found by the filter. -/
theorem filtered_settles (hfilter : filter.Built .any) :
    Settles valid (filtered policy scope filter) (Matches.For filter bodyOf) := by
  have hplan : Settles valid (liftM (policy.plan scope filter)) filter.IsPlan :=
    .lift fun _ hw => policy.isPlan_plan scope hfilter hw
  refine hplan.bind fun planned hplanned => ?_
  refine (compute_settles hplanned.built).bind fun keys hkeys => .pure ?_
  exact ⟨hkeys.trans hplanned.result_eq, hplanned, nofun⟩

/-- Listed keys are the result of the formula that lists them. -/
theorem ofKeys_settles (keys : CandidateSet) :
    Settles valid (liftM (Formula.ofKeys keys)) fun f => f.Built .any ∧ f.result = keys :=
  Settles.lift (x := liftM (Formula.ofKeys keys)) fun w _ =>
    ⟨⟨.ofKeys keys w.memory, rfl⟩, .of_memory w rfl⟩

/-- The matches of a filter are found by bodies. -/
theorem fetched_settles (h : storage.Serves valid scope.entityType requirements bodyOf)
    {p : Prefetch} (hp : p.Covers filter bodyOf)
    (hexists : ∀ k ∈ filter.result, (bodyOf k).isSome = true) :
    Settles valid (fetched storage scope requirements p) (Matches.For filter bodyOf) := by
  refine (prefetch_settles h p).bind fun known hknown => ?_
  have hmem (q : ℕ × Entity) :
      q ∈ known ↔ q.1 ∈ p.keys ∧ bodyOf q.1 = some q.2 ∧ p.predicate q.2 = true := by
    obtain ⟨k, e⟩ := q
    rw [hknown, List.mem_filterMap]
    constructor
    · rintro ⟨k', hk', haccepted⟩
      obtain ⟨e', he', hpair⟩ := Option.bind_eq_some_iff.1 haccepted
      split_ifs at hpair with hpredicate
      obtain ⟨rfl, rfl⟩ := Prod.mk.inj (Option.some.inj hpair)
      exact ⟨hk', he', hpredicate⟩
    · rintro ⟨hk, he, hpredicate⟩
      exact ⟨k, hk, by rw [he, Option.bind_some, if_pos hpredicate]⟩
  -- A match has a body, and it is accepted; what has a body that is accepted is a match.
  have hkeys : CandidateSet.ofKeys (known.map (·.1)) = filter.result := by
    rw [CandidateSet.ext_iff_mem]
    intro k
    rw [CandidateSet.mem_ofKeys, List.mem_map]
    constructor
    · rintro ⟨q, hq, rfl⟩
      obtain ⟨hkey, hbody, hpredicate⟩ := (hmem q).1 hq
      exact (hp.predicate q.1 hkey q.2 hbody).1 hpredicate
    · intro hk
      obtain ⟨e, he⟩ := Option.isSome_iff_exists.1 (hexists k hk)
      have hkey := hp.keys k hk
      exact ⟨(k, e), (hmem (k, e)).2 ⟨hkey, he, (hp.predicate k hkey e he).2 hk⟩, rfl⟩
  generalize CandidateSet.ofKeys (known.map (·.1)) = keys at hkeys ⊢
  refine (ofKeys_settles keys).bind fun f hf => .pure ?_
  exact ⟨hkeys, ⟨hf.1, hf.2.trans hkeys⟩, fun q hq => ((hmem q).1 hq).2.1⟩

/-- A count of facets is planned into one that comes to the same summary, and computed. -/
theorem count_settles {planned : Formula} (hbuilt : planned.Built .any)
    (buckets : List FacetBucket) :
    Settles valid (do
        (← policy.planFacets scope (← FacetCount.ofFilter planned buckets)).compute)
      (· = FacetCount.summarize (buckets.mergeSort fun a b => decide (a.facet ≤ b.facet))
        planned.result) := by
  generalize hsummary : FacetCount.summarize (buckets.mergeSort fun a b =>
    decide (a.facet ≤ b.facet)) planned.result = summary
  have hcount : Settles valid
      (liftM (FacetCount.ofFilter planned buckets) : Evaluation σ FacetCount)
      (FacetCount.Counts planned summary) :=
    .lift (x := liftM (FacetCount.ofFilter planned buckets)) fun w _ =>
      ⟨⟨rfl, hsummary⟩, .of_memory w rfl⟩
  have hplan {c : FacetCount} (hc : c.Counts planned summary) :
      Settles valid (liftM (policy.planFacets scope c)) (FacetCount.Counts planned summary) := by
    refine .lift fun w hw => ?_
    obtain ⟨hfilter, hresult, hsteady⟩ :=
      policy.planFacets_disabled scope hw (hc.filter_eq.symm ▸ hbuilt)
    exact ⟨⟨hfilter.trans hc.filter_eq, hresult.trans hc.result_eq⟩, hsteady⟩
  have hcompute {c : FacetCount} (hc : c.Counts planned summary) :
      Settles valid (liftM c.compute) (· = summary) :=
    .lift (x := liftM c.compute) fun w _ => ⟨hc.result_eq,
      .of_memory w (FacetCount.placements_visit (hc.filter_eq.symm ▸ hbuilt) w.memory)⟩
  exact hcount.bind fun c hc => (hplan hc).bind fun c' hc' => hcompute hc'

/-- Facets are counted over the filter, whatever stands for it. -/
theorem facets_settles {planned : Formula} (hbuilt : planned.Built .any)
    (facets : Option (List FacetBucket)) :
    Settles valid (facets.mapM fun buckets => do
        (← policy.planFacets scope (← FacetCount.ofFilter planned buckets)).compute)
      (· = facets.map fun buckets => FacetCount.summarize (buckets.mergeSort fun a b =>
        decide (a.facet ≤ b.facet)) planned.result) := by
  cases facets with
  | none => exact .pure rfl
  | some buckets =>
    rw [Option.mapM_some]
    exact (count_settles policy hbuilt buckets).bind fun summary hsummary =>
      .pure (congrArg some hsummary)

/-- A planned ordering has at most its merged orders exchanged for equal ones. -/
theorem planOrdering_settles (chain : SorterChain) :
    Settles valid (SorterChain.mapPreSorted (m := Evaluation σ) chain fun records =>
      policy.planSorter scope records) (SorterChain.Alike chain) := by
  refine Settles.mapM fun stage _ => ?_
  obtain ⟨name, sorter⟩ := stage
  cases sorter with
  | preSorted r =>
    have hplan : Settles valid (liftM (policy.planSorter scope r))
        fun r' => r'.result.get = r.result.get :=
      .lift fun w hw => policy.planSorter_disabled scope hw r
    exact hplan.bind fun r' hr' => .pure (.preSorted hr')
  | exact _ | primaryKey | reversedPrimaryKey | external _ | referenced _ => exact .pure (.refl _)

end Evaluation

end EntityQuery
