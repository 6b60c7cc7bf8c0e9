import EntityQuery.Proofs.Engine.Uncached

/-!
# Runs that agree

Two runs of a query under different policies go through different states: what one of them has
computed early, the other has not, and nodes have other identities. What they have in common is the
places of the comparators that the query orders by. `Agree` says that two computations have related
outcomes whenever they start in related states, and leave related states: related values, or the
same error. Computations that are put together alike from parts that agree do agree (`Agree.bind`).

Nothing is asked of the comparators here. A comparator may occur in several places of an ordering,
and then it is an error to use it for two sets of entities; the error is the same in both runs
(`initializeChain_agree`).
-/

namespace EntityQuery

/-- Outcomes that agree: values that are related, or the same error. -/
inductive OutcomesAgree {ε α β : Type} (V : α → β → Prop) : Except ε α → Except ε β → Prop
  /-- Related values. -/
  | ok {a : α} {b : β} (h : V a b) : OutcomesAgree V (.ok a) (.ok b)
  /-- The same error. -/
  | error (e : ε) : OutcomesAgree V (.error e) (.error e)

/-- Outcomes whose values have something in common have it in common. -/
theorem OutcomesAgree.map_eq {ε α β γ : Type} {f : α → γ} {g : β → γ} {x : Except ε α}
    {y : Except ε β} (h : OutcomesAgree (fun a b => f a = g b) x y) : x.map f = y.map g := by
  cases h with
  | ok h => exact congrArg Except.ok h
  | error e => rfl

/-- Equal outcomes agree. -/
theorem OutcomesAgree.of_eq {ε α : Type} {x y : Except ε α} (h : x = y) : OutcomesAgree Eq x y := by
  subst h
  cases x with
  | ok a => exact .ok rfl
  | error e => exact .error e

/-- Whether two computations, started in related states, have outcomes that agree and leave related
states. -/
def Agree {ε σ τ α β : Type} (R : σ → τ → Prop) (V : α → β → Prop) (x : ExceptT ε (StateM σ) α)
    (y : ExceptT ε (StateM τ) β) : Prop :=
  ∀ s t, R s t → OutcomesAgree V (x.run s).1 (y.run t).1 ∧ R (x.run s).2 (y.run t).2

namespace Agree

variable {ε σ τ α β γ δ : Type} {R : σ → τ → Prop} {V : α → β → Prop} {W : γ → δ → Prop}

/-- Values that are related agree. -/
theorem pure {a : α} {b : β} (h : V a b) :
    Agree R V (Pure.pure a : ExceptT ε (StateM σ) α) (Pure.pure b : ExceptT ε (StateM τ) β) :=
  fun _ _ hst => ⟨.ok h, hst⟩

/-- Outcomes that agree, agree as computations. -/
theorem outcome {a : Except ε α} {b : Except ε β} (h : OutcomesAgree V a b) :
    Agree R V (liftM a : ExceptT ε (StateM σ) α) (liftM b : ExceptT ε (StateM τ) β) := by
  intro s t hst
  cases h with
  | ok h => exact ⟨.ok h, hst⟩
  | error e => exact ⟨.error e, hst⟩

/-- Computations that cannot fail agree when they do so step by step. -/
theorem lift {x : StateM σ α} {y : StateM τ β}
    (h : ∀ s t, R s t → V (x s).1 (y t).1 ∧ R (x s).2 (y t).2) :
    Agree R V (liftM x : ExceptT ε (StateM σ) α) (liftM y : ExceptT ε (StateM τ) β) :=
  fun s t hst => ⟨.ok (h s t hst).1, (h s t hst).2⟩

/-- Computations that go on alike after ones that agree do agree. -/
theorem bind {x : ExceptT ε (StateM σ) α} {y : ExceptT ε (StateM τ) β}
    {f : α → ExceptT ε (StateM σ) γ} {g : β → ExceptT ε (StateM τ) δ} (hxy : Agree R V x y)
    (hfg : ∀ a b, V a b → Agree R W (f a) (g b)) : Agree R W (x >>= f) (y >>= g) := by
  intro s t hst
  obtain ⟨houtcomes, hstates⟩ := hxy s t hst
  have hx : (x >>= f).run s = ((ExceptT.bindCont f (x.run s).1).run (x.run s).2) := rfl
  have hy : (y >>= g).run t = ((ExceptT.bindCont g (y.run t).1).run (y.run t).2) := rfl
  rw [hx, hy]
  generalize (x.run s).1 = outcome, (y.run t).1 = outcome' at houtcomes
  cases houtcomes with
  | ok h => exact hfg _ _ h _ _ hstates
  | error e => exact ⟨.error e, hstates⟩

end Agree

/-! ## Orderings that are exchanged for equal ones -/

namespace Sorter.Alike

variable {s s' s'' : Sorter}

/-- What is exchanged for an equal sorter may be exchanged back. -/
theorem symm (h : s.Alike s') : s'.Alike s := by
  cases h with
  | preSorted h => exact .preSorted h.symm
  | refl => exact .refl s

/-- Sorters may be exchanged for equal ones twice. -/
theorem trans (h : s.Alike s') (h' : s'.Alike s'') : s.Alike s'' := by
  cases h with
  | preSorted h =>
    cases h' with
    | preSorted h' => exact .preSorted (h'.trans h)
    | refl => exact .preSorted h
  | refl => exact h'

end Sorter.Alike

/-- Two chains that a chain was exchanged for may be exchanged for each other. -/
theorem SorterChain.Alike.exchange {chain chain' chain'' : SorterChain} (h : Alike chain chain')
    (h' : Alike chain chain'') : Alike chain' chain'' := by
  induction h generalizing chain'' with
  | nil =>
    cases h'
    exact .nil
  | cons hstage _ ih =>
    cases h' with
    | cons hstage' hrest' => exact .cons (hstage.symm.trans hstage') (ih hrest')

/-- Merged orders do not matter where comparators are initialized. -/
theorem initializeChain_alike (policy : PlanningPolicy) (catalog : String)
    {chain chain' : SorterChain} (h : SorterChain.Alike chain chain') (keys : CandidateSet) :
    initializeChain policy catalog chain' keys = initializeChain policy catalog chain keys := by
  induction h with
  | nil => rfl
  | @cons stage stage' rest rest' hstage _ ih =>
    obtain ⟨scope, sorter⟩ := stage
    obtain ⟨scope', sorter'⟩ := stage'
    have hsorter : initializeSorter policy catalog sorter' keys
        = initializeSorter policy catalog sorter keys := by
      cases hstage with
      | preSorted => rfl
      | refl => rfl
    rw [initializeChain, initializeChain, initializeStage, initializeStage, ih, hsorter]

/-! ## States with the same places -/

/-- Whether some comparators have the same places in two memories. -/
def Memory.SamePlaces (ids : List ComparatorId) (m m' : Memory) : Prop :=
  ∀ id ∈ ids, m.placements[id]? = m'.placements[id]?

namespace Memory.SamePlaces

variable {ids : List ComparatorId} {m m' : Memory}

/-- What places nothing keeps the places the same. -/
theorem congr {n n' : Memory} (h : SamePlaces ids m m') (hm : n.placements = m.placements)
    (hm' : n'.placements = m'.placements) : SamePlaces ids n n' := by
  intro id hid
  rw [hm, hm']
  exact h id hid

/-- Placing a comparator alike keeps the places the same. -/
theorem place (h : SamePlaces ids m m') (c : Comparator) (order : List ℕ) (input : CandidateSet) :
    SamePlaces ids (c.place order input m) (c.place order input m') := by
  intro id hid
  simp only [Comparator.place, Std.HashMap.getElem?_insert, h id hid]

end Memory.SamePlaces

/-- Two workspaces without a cache in which some comparators have the same places. -/
structure Workspace.Peers (ids : List ComparatorId) (w w' : Workspace) : Prop where
  /-- The first one has no cache. -/
  left : w.supervisor.isEnabled = false
  /-- Nor has the second one. -/
  right : w'.supervisor.isEnabled = false
  /-- The places are the same. -/
  places : w.memory.SamePlaces ids w'.memory

/-- Steps that leave cache and places alone lead from peers to peers. -/
theorem Workspace.Peers.steady {ids : List ComparatorId} {w w' v v' : Workspace}
    (h : Workspace.Peers ids w w') (hw : w.Steady v) (hw' : w'.Steady v') :
    Workspace.Peers ids v v' where
  left := hw.supervisor_eq ▸ h.left
  right := hw'.supervisor_eq ▸ h.right
  places := h.places.congr hw.placements_eq hw'.placements_eq

/-- What uses the memory only agrees where there is no cache. -/
theorem Agree.ofRun {α β : Type} {ids : List ComparatorId} {V : α → β → Prop}
    {x : ExceptT Error Run α} {y : ExceptT Error Run β} (h : Agree (Memory.SamePlaces ids) V x y) :
    Agree (Workspace.Peers ids) V (Attempt.ofRun x) (Attempt.ofRun y) := by
  intro w w' hw
  obtain ⟨houtcomes, hplaces⟩ := h w.memory w'.memory hw.places
  exact ⟨houtcomes, hw.left, hw.right, hplaces⟩

/-! ## Sorting -/

variable {ids : List ComparatorId}

/-- Merged orders with the same result agree. -/
theorem MergedRecords.compute_agree {r r' : MergedRecords} (h : r'.result.get = r.result.get) :
    Agree (Memory.SamePlaces ids) Eq (liftM r.compute : ExceptT Error Run (List ℕ))
      (liftM r'.compute) :=
  .lift fun m m' hplaces =>
    ⟨h.symm, hplaces.congr (r.placements_visit m) (r'.placements_visit m')⟩

/-- A sorter slices alike in two memories, if its comparator has the same places in both. -/
theorem Sorter.slice_agree {s s' : Sorter} (h : s.Alike s')
    (hids : ∀ c, s = .referenced c → c.id ∈ ids) (context : SortContext) (out : List ℕ) :
    Agree (Memory.SamePlaces ids) Eq (s.slice context out) (s'.slice context out) := by
  have hmerged {r r' : MergedRecords} (hr : r'.result.get = r.result.get) :
      Agree (Memory.SamePlaces ids) Eq (slice (.preSorted r) context out)
        (slice (.preSorted r') context out) :=
    (MergedRecords.compute_agree hr).bind fun _ _ horder => .pure (by rw [horder])
  cases h with
  | preSorted hr => exact hmerged hr
  | refl =>
    cases s with
    | primaryKey | reversedPrimaryKey | exact _ | external _ => exact .pure rfl
    | preSorted r => exact hmerged rfl
    | referenced c =>
      have hget : Agree (Memory.SamePlaces ids) (Memory.SamePlaces ids)
          (get : ExceptT Error Run Memory) get := fun m m' hplaces => ⟨.ok hplaces, hplaces⟩
      refine hget.bind fun m m' hplaces => ?_
      have hplacement : c.placement m = c.placement m' := by
        rw [Comparator.placement, Comparator.placement, hplaces c.id (hids c rfl)]
      exact (Agree.outcome (.of_eq hplacement)).bind fun _ _ hp => .pure (by rw [hp])

namespace SorterChain

/-- Sorters that slice alike do so one after the other. -/
theorem run_agree {sorters sorters' : List Sorter} (h : List.Forall₂ Sorter.Alike sorters sorters')
    (hids : ∀ s ∈ sorters, ∀ c, s = .referenced c → c.id ∈ ids) (p : SortContext.Progress) :
    Agree (Memory.SamePlaces ids) Eq (run sorters p) (run sorters' p) := by
  induction h generalizing p with
  | nil => exact .pure rfl
  | @cons s s' rest rest' hs _ ih =>
    rw [run, run]
    by_cases hdone : p.context.keys.isEmpty || p.context.isFilled
    · simp only [hdone, if_true]
      exact .pure rfl
    · simp only [hdone]
      refine (Sorter.slice_agree hs (hids s List.mem_cons_self) _ _).bind fun q q' hq => ?_
      rw [hq]
      exact ih (fun s hs => hids s (List.mem_cons_of_mem _ hs)) _

/-- Chains of equal orderings sort alike. -/
theorem sort_agree {chain chain' : SorterChain} (h : Alike chain chain')
    (hids : ∀ c ∈ SorterChain.comparators chain, c.id ∈ ids) (keys : CandidateSet)
    (start stop : ℕ) :
    Agree (Memory.SamePlaces ids) Eq (sort chain keys start stop)
      (sort chain' keys start stop) := by
  have hsorters : List.Forall₂ Sorter.Alike (sorters chain) (sorters chain') :=
    List.rel_append (List.forall₂_map_left_iff.2 (List.forall₂_map_right_iff.2 h))
      (.cons (.refl .primaryKey) .nil)
  refine (run_agree hsorters ?_ _).bind fun p q hpq => .pure (by rw [hpq])
  intro s hs c hc
  rcases List.mem_append.1 hs with hs | hs
  · obtain ⟨stage, hstage, rfl⟩ := List.mem_map.1 hs
    refine hids c (mem_comparators hstage ?_)
    rw [hc]
    exact c.mem_comparators
  · rw [List.mem_singleton.1 hs] at hc
    cases hc

end SorterChain

/-! ## Nested queries -/

section

variable (policy policy' : PlanningPolicy) (catalog : String)

/-- What planning may make of a filter: a formula that is built and has the result of the filter. -/
structure Formula.IsPlan (filter planned : Formula) : Prop where
  /-- The formula is built. -/
  built : planned.Built .any
  /-- The result is that of the filter. -/
  result_eq : planned.result = filter.result

/-- Without a cache, planning makes of a filter what it may. -/
theorem PlanningPolicy.isPlan_plan (scope : Scope) {filter : Formula} (hfilter : filter.Built .any)
    {w : Workspace} (hw : w.supervisor.isEnabled = false) :
    filter.IsPlan (policy.plan scope filter w).1 ∧ w.Steady (policy.plan scope filter w).2 := by
  obtain ⟨hbuilt, hresult, hsteady⟩ := policy.plan_disabled scope hw hfilter
  exact ⟨⟨hbuilt, hresult⟩, hsteady⟩

/-- Nested queries agree under any two policies, where their comparators are prepared alike. -/
theorem nestedOrder_agree (scope : Scope) {filter : Formula} (hfilter : filter.Built .any)
    {ordering : SorterChain} (hids : ∀ c ∈ SorterChain.comparators ordering, c.id ∈ ids)
    {prepare prepare' : CandidateSet → Attempt Unit}
    (hprepare : ∀ keys, Agree (Workspace.Peers ids) Eq (prepare keys) (prepare' keys)) :
    Agree (Workspace.Peers ids) Eq (nestedOrder policy scope filter ordering prepare)
      (nestedOrder policy' scope filter ordering prepare') := by
  -- The filter is planned into formulas that differ, but have one result.
  have hplan : Agree (Workspace.Peers ids) (fun f g => filter.IsPlan f ∧ filter.IsPlan g)
      (liftM (policy.plan scope filter) : Attempt Formula) (liftM (policy'.plan scope filter)) := by
    refine .lift fun w w' hw => ?_
    obtain ⟨hf, hsteady⟩ := policy.isPlan_plan scope hfilter hw.left
    obtain ⟨hg, hsteady'⟩ := policy'.isPlan_plan scope hfilter hw.right
    exact ⟨⟨hf, hg⟩, hw.steady hsteady hsteady'⟩
  have hcompute {f g : Formula} (hf : filter.IsPlan f) (hg : filter.IsPlan g) :
      Agree (Workspace.Peers ids) Eq (liftM f.compute : Attempt CandidateSet)
        (liftM g.compute) := by
    refine .lift fun w w' hw => ⟨hf.result_eq.trans hg.result_eq.symm, hw.steady ?_ ?_⟩
    · exact .of_memory w (hf.built.placements_visit w.memory)
    · exact .of_memory w' (hg.built.placements_visit w'.memory)
  refine hplan.bind fun f g hfg => (hcompute hfg.1 hfg.2).bind fun keys keys' hkeys => ?_
  subst hkeys
  refine (hprepare keys).bind fun _ _ _ => ?_
  have halike : SorterChain.Alike ordering ordering := List.forall₂_same.2 fun _ _ => .refl _
  exact (Agree.ofRun (SorterChain.sort_agree halike hids keys 0 keys.size)).bind
    fun _ _ hsorted => .pure (by rw [hsorted])

mutual

/-- A comparator is initialized alike under any two policies. -/
theorem initializeComparator_agree (c : Comparator) (input : CandidateSet)
    (hfilters : ∀ d ∈ c.comparators, d.filter.Built .any) (hids : ∀ d ∈ c.comparators, d.id ∈ ids) :
    Agree (Workspace.Peers ids) Eq (initializeComparator policy catalog c input)
      (initializeComparator policy' catalog c input) := by
  match c with
  | ⟨id, entityType, filter, ordering, references⟩ =>
    have hordering : ∀ d ∈ SorterChain.comparators ordering,
        d ∈ (Comparator.mk id entityType filter ordering references).comparators :=
      fun d hd => List.mem_cons_of_mem _ hd
    have hself := Comparator.mem_comparators ⟨id, entityType, filter, ordering, references⟩
    have hnested := nestedOrder_agree policy policy' ⟨catalog, entityType⟩ (hfilters _ hself)
      (fun d hd => hids d (hordering d hd)) fun keys =>
        initializeChain_agree ordering keys (fun d hd => hfilters d (hordering d hd))
          fun d hd => hids d (hordering d hd)
    have hget : Agree (Workspace.Peers ids) (Workspace.Peers ids) (get : Attempt Workspace) get :=
      fun w w' hw => ⟨.ok hw, hw⟩
    rw [initializeComparator, initializeComparator]
    refine hget.bind fun w w' hw => ?_
    have hready : Comparator.isReadyFor ⟨id, entityType, filter, ordering, references⟩ w.memory
          input
        = Comparator.isReadyFor ⟨id, entityType, filter, ordering, references⟩ w'.memory input := by
      rw [Comparator.isReadyFor, Comparator.isReadyFor, hw.places id (hids _ hself)]
    refine (Agree.outcome (.of_eq hready)).bind fun ready _ hsame => ?_
    subst hsame
    cases ready with
    | true => exact .pure rfl
    | false =>
      refine hnested.bind fun order _ hsame => ?_
      subst hsame
      exact .lift (fun v v' hv => ⟨rfl, hv.left, hv.right, hv.places.place _ order input⟩)

/-- A sorter is initialized alike under any two policies. -/
theorem initializeSorter_agree (s : Sorter) (input : CandidateSet)
    (hfilters : ∀ d ∈ s.comparators, d.filter.Built .any) (hids : ∀ d ∈ s.comparators, d.id ∈ ids) :
    Agree (Workspace.Peers ids) Eq (initializeSorter policy catalog s input)
      (initializeSorter policy' catalog s input) := by
  match s with
  | .referenced c => exact initializeComparator_agree c input hfilters hids
  | .exact _ | .primaryKey | .reversedPrimaryKey | .preSorted _ | .external _ => exact .pure rfl

/-- A chain is initialized alike under any two policies. -/
theorem initializeChain_agree (chain : List SortStage) (input : CandidateSet)
    (hfilters : ∀ d ∈ SorterChain.comparators chain, d.filter.Built .any)
    (hids : ∀ d ∈ SorterChain.comparators chain, d.id ∈ ids) :
    Agree (Workspace.Peers ids) Eq (initializeChain policy catalog chain input)
      (initializeChain policy' catalog chain input) := by
  match chain with
  | [] =>
    rw [initializeChain_nil, initializeChain_nil]
    exact .pure rfl
  | ⟨scope, sorter⟩ :: rest =>
    rw [SorterChain.comparators] at hfilters hids
    rw [initializeChain, initializeChain, initializeStage, initializeStage]
    refine (initializeSorter_agree sorter input (fun d hd => hfilters d (List.mem_append_left _ hd))
      fun d hd => hids d (List.mem_append_left _ hd)).bind fun _ _ _ => ?_
    exact initializeChain_agree rest input (fun d hd => hfilters d (List.mem_append_right _ hd))
      fun d hd => hids d (List.mem_append_right _ hd)

end

end

end EntityQuery
