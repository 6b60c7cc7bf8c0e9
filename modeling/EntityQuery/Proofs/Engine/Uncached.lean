import EntityQuery.Engine.Evaluate
import EntityQuery.Proofs.Pages.Registry
import EntityQuery.Proofs.Pages.Tiling
import EntityQuery.Proofs.Sort.Prepare

/-!
# Answering a query without a cache

An engine at work carries a workspace and more besides, so what holds of a workspace is lifted to
the engine first (`Evaluation.run_work`, `EngineState.Steady`). Each step of an evaluation then has
one law: it succeeds, it gives what the query says without regard to plans, and it leaves engine and
comparators as they are. Planning exchanges merged orders for equal ones, so the chain that is
sorted by is another chain than that of the query, but one with the same order
(`SorterChain.Alike`).
-/

namespace EntityQuery

/-! ## Planned orderings -/

/-- Whether a sorter is another one with at most its merged order exchanged for an equal one. -/
inductive Sorter.Alike : Sorter → Sorter → Prop
  /-- Merged orders with the same result. -/
  | preSorted {r r' : MergedRecords} (h : r'.result.get = r.result.get) :
    Alike (.preSorted r) (.preSorted r')
  /-- The same sorter. -/
  | refl (s : Sorter) : Alike s s

namespace Sorter.Alike

variable {s s' : Sorter}

/-- Such sorters have the same comparators. -/
theorem comparators_eq (h : s.Alike s') : s'.comparators = s.comparators := by
  rcases h with h | s
  · rfl
  · rfl

/-- Such sorters order by the same references. -/
theorem referenced_iff (h : s.Alike s') (c : Comparator) :
    s' = .referenced c ↔ s = .referenced c := by
  rcases h with h | s
  · exact Iff.intro (fun hc => nomatch hc) (fun hc => nomatch hc)
  · exact Iff.rfl

/-- Such sorters emit the same. -/
theorem emits_eq (h : s.Alike s') (position : Comparator → ℕ → Option ℕ) (keys : CandidateSet) :
    s'.emits position keys = s.emits position keys := by
  rcases h with h | s
  · rw [Sorter.emits, Sorter.emits, h]
  · rfl

end Sorter.Alike

namespace SorterChain

/-- Whether a chain is another one with at most its merged orders exchanged for equal ones. -/
abbrev Alike (chain chain' : SorterChain) : Prop :=
  List.Forall₂ (fun stage stage' => Sorter.Alike stage.sorter stage'.sorter) chain chain'

variable {chain chain' : SorterChain}

/-- Such chains have the same comparators. -/
theorem Alike.comparators_eq (h : Alike chain chain') :
    SorterChain.comparators chain' = SorterChain.comparators chain := by
  induction h with
  | nil => rfl
  | @cons stage stage' rest rest' hstage _ ih =>
    obtain ⟨scope, sorter⟩ := stage
    obtain ⟨scope', sorter'⟩ := stage'
    rw [SorterChain.comparators, SorterChain.comparators, ih, hstage.comparators_eq]

/-- Such chains have the same order. -/
theorem Alike.order_eq (h : Alike chain chain') (keys : CandidateSet) :
    order chain' keys = order chain keys := by
  have hfull (position : Comparator → ℕ → Option ℕ) (left : CandidateSet) :
      fullOrder position chain' left = fullOrder position chain left := by
    induction h generalizing left with
    | nil => rfl
    | cons hstage _ ih => rw [fullOrder, fullOrder, hstage.emits_eq, ih]
  exact hfull _ keys

/-- What holds of the comparators of the one chain holds of those of the other. -/
theorem Alike.forall_comparator (h : Alike chain chain') {P : Comparator → Prop} :
    (∀ stage ∈ chain', ∀ c, stage.sorter = .referenced c → P c) ↔
      ∀ stage ∈ chain, ∀ c, stage.sorter = .referenced c → P c := by
  induction h with
  | nil => exact Iff.rfl
  | cons hstage _ ih =>
    rw [List.forall_mem_cons, List.forall_mem_cons, ih]
    simp only [hstage.referenced_iff]

end SorterChain

/-! ## Steps of an evaluation -/

namespace EngineState

variable {σ : Type}

/-- The cache and the memory of an engine at work. -/
def workspace (s : EngineState σ) : Workspace := ⟨s.engine.supervisor, s.memory⟩

/-- An engine with another cache and memory. -/
def withWorkspace (s : EngineState σ) (w : Workspace) : EngineState σ :=
  { s with engine := { s.engine with supervisor := w.supervisor }, memory := w.memory }

/-- What planning and computing leave as it is: the engine, the storage and the places of the
comparators. -/
structure Steady (s s' : EngineState σ) : Prop where
  /-- The engine is the same. -/
  engine_eq : s'.engine = s.engine
  /-- The storage is the same. -/
  store_eq : s'.store = s.store
  /-- The places are the same. -/
  placements_eq : s'.memory.placements = s.memory.placements

namespace Steady

/-- Nothing is changed by doing nothing. -/
theorem refl (s : EngineState σ) : Steady s s := ⟨rfl, rfl, rfl⟩

/-- Two changes that leave engine, storage and places alone do so together. -/
theorem trans {a b c : EngineState σ} (hab : Steady a b) (hbc : Steady b c) : Steady a c :=
  ⟨hbc.engine_eq.trans hab.engine_eq, hbc.store_eq.trans hab.store_eq,
    hbc.placements_eq.trans hab.placements_eq⟩

/-- What leaves the cache alone leaves the engine alone. -/
theorem of_workspace {s : EngineState σ} {w : Workspace} (h : s.workspace.Steady w) :
    Steady s (s.withWorkspace w) := by
  refine ⟨?_, rfl, h.placements_eq⟩
  have hsupervisor : w.supervisor = s.engine.supervisor := h.supervisor_eq
  rw [withWorkspace, hsupervisor]

end Steady

end EngineState

namespace Evaluation

variable {σ α : Type}

/-- What consults the cache, as a step. -/
theorem run_work {x : Work α} {s : EngineState σ} {a : α} {w : Workspace}
    (h : x s.workspace = (a, w)) :
    (liftM x : Evaluation σ α).run s = (.ok a, s.withWorkspace w) := by
  have hrun : (liftM x : Evaluation σ α).run s
      = (.ok (x s.workspace).1, s.withWorkspace (x s.workspace).2) := rfl
  rw [hrun, h]

/-- What consults the cache and may fail, as a step. -/
theorem run_ofAttempt {x : Attempt α} {s : EngineState σ} {a : Except Error α} {w : Workspace}
    (h : x.run s.workspace = (a, w)) :
    (ofAttempt x : Evaluation σ α).run s = (a, s.withWorkspace w) := by
  have hrun : (ofAttempt x : Evaluation σ α).run s
      = ((x.run s.workspace).1, s.withWorkspace (x.run s.workspace).2) := rfl
  rw [hrun, h]

variable (policy : PlanningPolicy) (scope : Scope) {s : EngineState σ}
  (hs : s.engine.supervisor.isEnabled = false)

include hs

/-- Without a cache, the matches of a filter are its result. -/
theorem filtered_run {filter : Formula} (hfilter : filter.Built .any) :
    ∃ planned s', (filtered policy scope filter : Evaluation σ Matches).run s
        = (.ok ⟨planned, filter.result, []⟩, s') ∧
      planned.Built .any ∧ planned.result = filter.result ∧ s.Steady s' := by
  obtain ⟨hbuilt, hresult, hsteady⟩ :=
    policy.plan_disabled (w := s.workspace) scope hs hfilter
  obtain ⟨planned, w, hplan⟩ : ∃ planned w, policy.plan scope filter s.workspace = (planned, w) :=
    ⟨_, _, rfl⟩
  rw [hplan] at hbuilt hresult hsteady
  refine ⟨planned, s.withWorkspace { w with memory := planned.visit w.memory }, ?_, hbuilt, hresult,
    .of_workspace (hsteady.trans (.of_memory w (hbuilt.placements_visit w.memory)))⟩
  unfold filtered
  rw [run_bind_of_ok (run_work hplan), ← hresult]
  rfl

/-- Without a cache, facets are counted over the filter. -/
theorem facets_run {filter : Formula} (hfilter : filter.Built .any)
    (facets : Option (List FacetBucket)) :
    ∃ s', (facets.mapM fun buckets => do
          (← policy.planFacets scope (← FacetCount.ofFilter filter buckets)).compute
        : Evaluation σ (Option FacetSummary)).run s
        = (.ok (facets.map fun buckets => FacetCount.summarize (buckets.mergeSort fun a b =>
            decide (a.facet ≤ b.facet)) filter.result), s') ∧
      s.Steady s' := by
  rcases facets with - | buckets
  · exact ⟨s, rfl, .refl s⟩
  · -- The count is put together in the memory, planned, and computed.
    obtain ⟨c, m, hcount⟩ : ∃ c m, FacetCount.ofFilter filter buckets s.memory = (c, m) :=
      ⟨_, _, rfl⟩
    have hfilter' : c.filter = filter := by
      rw [show c = (FacetCount.ofFilter filter buckets s.memory).1 by rw [hcount]]
      rfl
    have hresult : c.result.get = FacetCount.summarize (buckets.mergeSort fun a b =>
        decide (a.facet ≤ b.facet)) filter.result := by
      rw [show c = (FacetCount.ofFilter filter buckets s.memory).1 by rw [hcount]]
      rfl
    have hplaces : m.placements = s.memory.placements := by
      rw [show m = (FacetCount.ofFilter filter buckets s.memory).2 by rw [hcount]]
      rfl
    let w₀ : Workspace := ⟨s.engine.supervisor, m⟩
    have hsteady₀ : s.workspace.Steady w₀ := .of_memory s.workspace hplaces
    have hlifted : (liftM (FacetCount.ofFilter filter buckets) : Work FacetCount) s.workspace
        = (c, w₀) := Workspace.run_memory hcount
    obtain ⟨hfilter₁, hresult₁, hsteady₁⟩ :=
      policy.planFacets_disabled (w := w₀) scope hs (hfilter' ▸ hfilter)
    obtain ⟨c₁, w₁, hplan⟩ : ∃ c₁ w₁, policy.planFacets scope c w₀ = (c₁, w₁) := ⟨_, _, rfl⟩
    rw [hplan] at hfilter₁ hresult₁ hsteady₁
    have hbuilt₁ : c₁.filter.Built .any := by
      rw [hfilter₁, hfilter']
      exact hfilter
    let w₂ : Workspace := { w₁ with memory := c₁.visit w₁.memory }
    have hsteady₂ : w₁.Steady w₂ := .of_memory w₁ (FacetCount.placements_visit hbuilt₁ w₁.memory)
    refine ⟨s.withWorkspace w₂, ?_, .of_workspace (hsteady₀.trans (hsteady₁.trans hsteady₂))⟩
    have hcount' : (liftM (FacetCount.ofFilter filter buckets) : Evaluation σ FacetCount).run s
        = (.ok c, s.withWorkspace w₀) := run_work hlifted
    have hplan' : (liftM (policy.planFacets scope c) : Evaluation σ FacetCount).run
        (s.withWorkspace w₀) = (.ok c₁, s.withWorkspace w₁) := run_work hplan
    rw [Option.map_some, ← hresult, ← hresult₁, Option.mapM_some]
    refine run_map_of_ok ?_ some
    rw [run_bind_of_ok hcount', run_bind_of_ok hplan']
    rfl

/-- Without a cache, a planned ordering orders as the ordering does. -/
theorem planOrdering_run (chain : SorterChain) :
    ∃ chain' s', (SorterChain.mapPreSorted (m := Evaluation σ) chain fun records =>
          policy.planSorter scope records).run s = (.ok chain', s') ∧
      SorterChain.Alike chain chain' ∧ s.Steady s' := by
  unfold SorterChain.mapPreSorted
  induction chain generalizing s with
  | nil => exact ⟨[], s, rfl, .nil, .refl s⟩
  | cons stage rest ih =>
    rw [List.mapM_cons]
    obtain ⟨name, sorter⟩ := stage
    cases sorter with
    | preSorted r =>
      obtain ⟨hresult, hsteady₁⟩ := policy.planSorter_disabled (w := s.workspace) scope hs r
      obtain ⟨r', w, hplan⟩ : ∃ r' w, policy.planSorter scope r s.workspace = (r', w) :=
        ⟨_, _, rfl⟩
      rw [hplan] at hresult hsteady₁
      have hplan' : (liftM (policy.planSorter scope r) : Evaluation σ MergedRecords).run s
          = (.ok r', s.withWorkspace w) := run_work hplan
      have hsteady₁ : s.Steady (s.withWorkspace w) := .of_workspace hsteady₁
      obtain ⟨rest', s₂, hrun₂, halike₂, hsteady₂⟩ :=
        ih (s := s.withWorkspace w) (hsteady₁.engine_eq ▸ hs)
      refine ⟨⟨name, .preSorted r'⟩ :: rest', s₂, ?_, .cons (.preSorted hresult) halike₂,
        hsteady₁.trans hsteady₂⟩
      exact (run_bind_of_ok (run_bind_of_ok hplan' _) _).trans (run_bind_of_ok hrun₂ _)
    | exact _ | primaryKey | reversedPrimaryKey | external _ | referenced _ =>
      -- Other orderings are left as they are.
      obtain ⟨rest', s₂, hrun₂, halike₂, hsteady₂⟩ := ih hs
      exact ⟨_, s₂, (run_bind_of_ok rfl _).trans (run_bind_of_ok hrun₂ _), .cons (.refl _) halike₂,
        hsteady₂⟩

/-- Without a cache, the comparators of a chain are initialized, and the engine stays as it is. -/
theorem initialized_run (catalog : String) {chain : SorterChain} {keys : CandidateSet}
    (hfilters : ∀ d ∈ SorterChain.comparators chain, d.filter.Built .any)
    (hnodup : (idsOf (SorterChain.comparators chain)).Nodup)
    (h : ∀ stage ∈ chain, stage.sorter.Preparable s.memory keys) :
    ∃ w, (ofAttempt (initializeChain policy catalog chain keys) : Evaluation σ Unit).run s
        = (.ok (), s.withWorkspace w) ∧
      (s.withWorkspace w).engine = s.engine ∧
      ∀ stage ∈ chain, stage.sorter.Prepared w.memory keys := by
  obtain ⟨w, hchain, hconfined, hprepared⟩ := initializeChain_run policy catalog chain keys
    (w := s.workspace) hs hfilters hnodup h
  refine ⟨w, run_ofAttempt hchain, ?_, hprepared⟩
  have hsupervisor : w.supervisor = s.engine.supervisor := hconfined.supervisor_eq
  rw [EngineState.withWorkspace, hsupervisor]

omit hs in
/-- Where comparators are initialized, the keys in a window are those of the order in the window. -/
theorem sorted_run {chain chain' : SorterChain} (halike : SorterChain.Alike chain chain')
    {keys : CandidateSet} (hprepared : ∀ stage ∈ chain', stage.sorter.Prepared s.memory keys)
    (page : Window) :
    ∃ skipped m, (ofAttempt (.ofRun (SorterChain.sort chain' keys page.offset
          (Word.satAdd page.offset page.limit))) : Evaluation σ (List ℕ × List ℕ)).run s
        = (.ok (page.keysOf (SorterChain.order chain keys), skipped),
            s.withWorkspace { s.workspace with memory := m }) ∧
      m.placements = s.memory.placements := by
  obtain ⟨skipped, m, hsort, hplacements⟩ := SorterChain.sort_all hprepared page.offset
    (Word.satAdd page.offset page.limit)
  have hlength : (SorterChain.order chain keys).length = keys.size :=
    (SorterChain.order_perm chain keys).length_eq
  rw [halike.order_eq, ← hlength] at hsort
  exact ⟨skipped, m, run_ofAttempt (Attempt.run_ofRun hsort), hplacements⟩

omit hs in
/-- Cutting out a page asks the slicers and changes nothing else. -/
theorem run_window (page : PageRequest) (total : ℕ) (s : EngineState σ) :
    (window page total : Evaluation σ Window).run s
      = ((s.engine.slicers.window page.gaps page.number page.size total).1,
          { s with engine := { s.engine with
            slicers := (s.engine.slicers.window page.gaps page.number page.size total).2 } }) := by
  have hanswer (answer : Except Error Window) (s : EngineState σ) :
      (ofExcept answer : Evaluation σ Window).run s = (answer, s) := by
    cases answer with
    | error e => rfl
    | ok w => rfl
  exact hanswer _ _

omit hs in
/-- An engine whose slicers are sound gives the window of the walk, and its slicers stay sound. -/
theorem window_run (hslicers : s.engine.slicers.Sound) (page : PageRequest) {gaps : List Gap}
    (hgaps : Gap.ofTexts page.gaps = .ok gaps) (hnumber : 1 ≤ page.number) (hsize : 1 ≤ page.size)
    (total : ℕ) :
    ∃ slicers, (window page total : Evaluation σ Window).run s
        = (.ok (windowOf gaps page.number page.size total),
            { s with engine := { s.engine with slicers } }) ∧
      slicers.Sound := by
  obtain ⟨slicers, hwindow, hsound⟩ := hslicers.window hgaps hnumber hsize total
  refine ⟨slicers, ?_, hsound⟩
  rw [run_window, hwindow]

end Evaluation

end EntityQuery
