import EntityQuery.Proofs.Cache.ServedBodies
import EntityQuery.Sort.Nested
import Mathlib.Order.Defs.Unbundled

/-!
# Work in which no body arrives

Of all that is done with a cache, only the arrival of a fetched body leaves a body in it. Filters,
counts of facets and merged orders report results of other kinds, so whatever is planned and
computed, each body that is found in an entry afterwards was there before (`Entries.Bodiless`).

A computation whose steps all lead from a state to one that is related to it does so as a whole,
when the relation is a preorder (`Leads`). Every part of answering a query that does not ask for
bodies is put together from such steps: planning (`PlanningPolicy.plan_bodiless`), computing
(`Formula.visit_bodiless`), initializing comparators (`initializeChain_bodiless`) and sorting
(`SorterChain.sort_bodiless`).
-/

namespace EntityQuery

/-! ## Related states -/

/-- Whether a computation always leaves a state that is related to the one that it starts in. -/
def Leads {σ α : Type} (R : σ → σ → Prop) (x : StateM σ α) : Prop := ∀ s, R s (x s).2

namespace Leads

variable {σ ε α β : Type} {R : σ → σ → Prop} [IsPreorder σ R]

/-- A value leaves the state as it is. -/
theorem pure (a : α) : Leads R (Pure.pure a) := fun s => refl_of R s

/-- One computation follows another. -/
theorem bind {x : StateM σ α} {f : α → StateM σ β} (hx : Leads R x) (hf : ∀ a, Leads R (f a)) :
    Leads R (x >>= f) :=
  fun s => trans_of R (hx s) (hf (x s).1 (x s).2)

/-- The state is looked at. -/
theorem get : Leads R (MonadState.get : StateM σ σ) := fun s => refl_of R s

/-- A computation that may fail gives a value. -/
theorem value (a : α) : Leads R (Pure.pure a : ExceptT ε (StateM σ) α).run :=
  pure (Except.ok a)

/-- One computation that may fail follows another. -/
theorem andThen {x : ExceptT ε (StateM σ) α} {f : α → ExceptT ε (StateM σ) β}
    (hx : Leads R x.run) (hf : ∀ a, Leads R (f a).run) : Leads R (x >>= f).run := by
  have hrun : Leads R (x.run >>= fun outcome => (ExceptT.bindCont f outcome).run) := by
    refine bind hx fun outcome => ?_
    cases outcome with
    | ok a => exact hf a
    | error e => exact pure (Except.error e)
  exact hrun

/-- What cannot fail is a step of what can. -/
theorem step {x : StateM σ α} (h : Leads R x) :
    Leads R (liftM x : ExceptT ε (StateM σ) α).run :=
  bind h fun a => pure (Except.ok a)

/-- An outcome is a step that leaves the state as it is. -/
theorem outcome (a : Except ε α) : Leads R (liftM a : ExceptT ε (StateM σ) α).run := pure a

end Leads

/-! ## Entries -/

/-- Whether a payload is the body of an entity. -/
def Payload.IsEntity (p : Payload) : Prop := ∃ body, p = .entity body

/-- What happens to entries while no body arrives. -/
structure Entries.Bodiless (old new : Entries) : Prop where
  /-- Entries keep their keys. -/
  keeps : Entries.Keeps old new
  /-- Where there is a body, it was there before. -/
  old_of_entity : ∀ (i : EntryId) (e' : Entry) (r : Digest × Payload), new[i]? = some e' →
    e'.payload = some r → r.2.IsEntity →
      ∃ e, old[i]? = some e ∧ e.key = e'.key ∧ e.payload = some r

namespace Entries.Bodiless

/-- Nothing happens. -/
theorem refl (entries : Entries) : Bodiless entries entries :=
  ⟨.refl entries, fun _ e _ he hr _ => ⟨e, he, rfl, hr⟩⟩

/-- One thing happens after the other. -/
theorem trans {a b c : Entries} (hab : Bodiless a b) (hbc : Bodiless b c) : Bodiless a c := by
  refine ⟨hab.keeps.trans hbc.keeps, fun i e r he hr hentity => ?_⟩
  obtain ⟨e', he', hkey', hr'⟩ := hbc.old_of_entity i e r he hr hentity
  obtain ⟨e'', he'', hkey'', hr''⟩ := hab.old_of_entity i e' r he' hr' hentity
  exact ⟨e'', he'', hkey''.trans hkey', hr''⟩

/-- Where nothing is reported, no body arrives. -/
theorem of_unreported {old new : Entries} (h : Unreported old new) : Bodiless old new :=
  ⟨h.keeps, fun _ _ _ he hr _ => h.exists_old he hr⟩

/-- A result that is not a body is reported. -/
theorem report (entries : Entries) (o : Observer) {computed : Computed}
    (h : ¬computed.payload.IsEntity) : Bodiless entries (o.report computed entries) := by
  refine ⟨.report entries o computed, fun i e' r he' hr hentity => ?_⟩
  obtain ⟨e, he, hkey, hpayload | ⟨-, rfl⟩⟩ := of_report he' hr
  · exact ⟨e, he, hkey, hpayload⟩
  · exact absurd hentity h

end Entries.Bodiless

/-- Whether no body arrives between two states of the memory. -/
def Memory.Bodiless (m m' : Memory) : Prop := Entries.Bodiless m.entries m'.entries

instance : IsPreorder Memory Memory.Bodiless where
  refl m := .refl m.entries
  trans _ _ _ := .trans

/-- A result that is not a body is reported to an observer, if there is one. -/
theorem Memory.report_bodiless (m : Memory) (observer : Option Observer) (computed : Computed)
    (h : ¬computed.payload.IsEntity) : m.Bodiless (m.report observer computed) := by
  cases observer with
  | none => exact refl_of _ m
  | some o => exact .report m.entries o h

/-- Where the entries stay as they are, no body arrives. -/
theorem Memory.bodiless_of_eq {m m' : Memory} (h : m'.entries = m.entries) : m.Bodiless m' := by
  rw [Memory.Bodiless, h]
  exact .refl m.entries

/-! ## Computations -/

namespace Formula

mutual

/-- No body arrives when a formula is computed. -/
theorem visit_bodiless (f : Formula) (m : Memory) : m.Bodiless (f.visit m) := by
  have hmark (m' : Memory) (id : NodeId) : m'.Bodiless (m'.markComputed id) :=
    Memory.bodiless_of_eq rfl
  match f with
  | .empty p | .constant p _ | .index p _ | .cached p _ =>
    unfold visit
    split_ifs
    · exact refl_of _ m
    · exact hmark m p.id
  | .and p children | .or p children =>
    unfold visit
    split_ifs
    · exact refl_of _ m
    · exact trans_of _ (visitAll_bodiless children m) (hmark _ p.id)
  | .not p subtracted superset =>
    unfold visit
    split_ifs
    · exact refl_of _ m
    · exact trans_of _ (trans_of _ (visit_bodiless subtracted m) (visit_bodiless superset _))
        (hmark _ p.id)
  | .price p source _ _ =>
    unfold visit
    split_ifs
    · exact refl_of _ m
    · exact trans_of _ (visit_bodiless source m) (hmark _ p.id)
  | .observed p inner observer savedCost =>
    unfold visit
    split_ifs
    · exact refl_of _ m
    · have hreport := (visit inner m).report_bodiless (some observer)
        (outcome p inner savedCost) (by rintro ⟨_, ⟨⟩⟩)
      exact trans_of _ (trans_of _ (visit_bodiless inner m) hreport) (hmark _ p.id)

/-- No body arrives when some formulas are computed. -/
theorem visitAll_bodiless (fs : List Formula) (m : Memory) : m.Bodiless (visitAll fs m) := by
  match fs with
  | [] => exact refl_of _ m
  | f :: rest => exact trans_of _ (visit_bodiless f m) (visitAll_bodiless rest _)

end

/-- Computing a formula brings no body. -/
theorem compute_bodiless (f : Formula) : Leads Memory.Bodiless f.compute :=
  fun m => f.visit_bodiless m

/-- Nor does building one. -/
theorem withChildren_bodiless (f : Formula) (children : List Formula) :
    Leads Memory.Bodiless (f.withChildren children) := by
  have hfresh {x : Run Formula} (h : ∀ m, (x m).2.entries = m.entries) : Leads Memory.Bodiless x :=
    fun m => Memory.bodiless_of_eq (h m)
  unfold withChildren
  split_ifs
  · exact .pure f
  · split
    · unfold allOf
      split_ifs <;> exact hfresh fun _ => rfl
    · unfold anyOf
      split_ifs <;> exact hfresh fun _ => rfl
    · exact hfresh fun _ => rfl
    · exact hfresh fun _ => rfl
    · exact hfresh fun _ => rfl
    · exact .pure _

/-- Nor does computing one into its result. -/
theorem toCachedForm_bodiless (f : Formula) : Leads Memory.Bodiless f.toCachedForm := by
  unfold toCachedForm
  split_ifs
  · exact .pure f
  · exact f.compute_bodiless.bind fun keys m => Memory.bodiless_of_eq rfl

/-- Nor does computing all that can be cached. -/
theorem enforceCachedForm_bodiless (f : Formula) : Leads Memory.Bodiless f.enforceCachedForm := by
  match f with
  | .and _ _ | .or _ _ | .not _ _ _ | .price _ _ _ _ =>
    rw [enforceCachedForm]
    exact toCachedForm_bodiless _
  | .empty _ | .constant _ _ | .index _ _ | .cached _ _ =>
    rw [enforceCachedForm]
    exact .pure _
  | .observed p inner observer savedCost =>
    rw [enforceCachedForm]
    exact (enforceCachedForm_bodiless inner).bind fun g => withChildren_bodiless _ [g]

end Formula

namespace FacetCount

/-- Computing a count of facets brings no body. -/
theorem compute_bodiless (c : FacetCount) : Leads Memory.Bodiless c.compute := by
  intro m
  show m.Bodiless (c.visit m)
  unfold visit
  split_ifs
  · exact refl_of _ m
  · have hreport := (c.filter.visit m).report_bodiless c.observer c.outcome
      (by rintro ⟨_, ⟨⟩⟩)
    exact trans_of _ (trans_of _ (c.filter.visit_bodiless m) hreport) (Memory.bodiless_of_eq rfl)

/-- Nor does computing one into its result. -/
theorem toCachedForm_bodiless (c : FacetCount) : Leads Memory.Bodiless c.toCachedForm := by
  unfold toCachedForm
  refine Leads.get.bind fun m => ?_
  split_ifs
  · exact .pure c
  · exact c.compute_bodiless.bind fun summary m => Memory.bodiless_of_eq rfl

end FacetCount

namespace MergedRecords

/-- Computing a merged order brings no body. -/
theorem compute_bodiless (r : MergedRecords) : Leads Memory.Bodiless r.compute := by
  intro m
  show m.Bodiless (r.visit m)
  unfold visit
  split_ifs
  · exact refl_of _ m
  · have hreport := m.report_bodiless r.observer r.outcome (by rintro ⟨_, ⟨⟩⟩)
    exact trans_of _ hreport (Memory.bodiless_of_eq rfl)

/-- Nor does computing one into its result. -/
theorem toCachedForm_bodiless (r : MergedRecords) : Leads Memory.Bodiless r.toCachedForm := by
  unfold toCachedForm
  refine Leads.get.bind fun m => ?_
  split_ifs
  · exact .pure r
  · exact r.compute_bodiless.bind fun order m => Memory.bodiless_of_eq rfl

end MergedRecords

/-! ## Sorting -/

/-- Slicing an order brings no body. -/
theorem Sorter.slice_bodiless (s : Sorter) (c : SortContext) (out : List ℕ) :
    Leads Memory.Bodiless (s.slice c out).run := by
  match s with
  | primaryKey | reversedPrimaryKey | exact _ | external _ => exact .value _
  | preSorted records => exact (Leads.step records.compute_bodiless).andThen fun _ => .value _
  | referenced comparator =>
    exact (Leads.step .get).andThen fun _ => (Leads.outcome _).andThen fun _ => .value _

/-- Nor does running one sorter after the other. -/
theorem SorterChain.run_bodiless (sorters : List Sorter) (p : SortContext.Progress) :
    Leads Memory.Bodiless (run sorters p).run := by
  induction sorters generalizing p with
  | nil => exact .value p
  | cons s rest ih =>
    unfold run
    split_ifs
    · exact .value p
    · exact (s.slice_bodiless _ _).andThen fun q => ih _

/-- Sorting by a chain brings no body. -/
theorem SorterChain.sort_bodiless (chain : SorterChain) (keys : CandidateSet) (start stop : ℕ) :
    Leads Memory.Bodiless (chain.sort keys start stop).run :=
  (run_bodiless _ _).andThen fun _ => .value _

/-! ## The cache -/

namespace Workspace

/-- Whether the slots of the table, if there is one, point to entries with their keys. -/
def Tabled (w : Workspace) : Prop := ∀ t ∈ w.supervisor.table, t.Indexed w.memory.entries

/-- Whether no body arrives between two states of a workspace whose table, if there is one, has its
entries: it has them afterwards too. -/
def Bodiless (w w' : Workspace) : Prop :=
  w.Tabled → w'.Tabled ∧ Entries.Bodiless w.memory.entries w'.memory.entries

instance : IsPreorder Workspace Bodiless where
  refl w hw := ⟨hw, .refl w.memory.entries⟩
  trans _ _ _ hab hbc ha :=
    ⟨(hbc (hab ha).1).1, (hab ha).2.trans (hbc (hab ha).1).2⟩

variable {α : Type} {scope : Scope}

/-- What only uses the memory brings no body to a workspace if it brings none to the memory. -/
theorem bodiless_ofRun {x : Run α} (h : Leads Memory.Bodiless x) :
    Leads Bodiless (liftM x : Work α) :=
  fun w hw => ⟨fun t ht => (hw t ht).mono (h w.memory).keeps, h w.memory⟩

/-- A lookup brings no body. -/
theorem lookup_bodiless {t : Table} {w : Workspace} (ht : w.supervisor.table = some t)
    (key : Digest) (kind : RecordKind) (snapshots : Digest) :
    w.Bodiless (lookup t key kind snapshots w).2 := by
  intro hw
  obtain ⟨hindexed, hunreported, -⟩ := (hw t ht).lookup key kind snapshots
  exact ⟨fun t' ht' => Option.some.inj ht' ▸ hindexed, .of_unreported hunreported⟩

/-- Nor does consulting the cache. -/
theorem consult_bodiless (scope : Scope) (kind : RecordKind) (content snapshots : Digest)
    (cost : ℕ) : Leads Bodiless (consult scope kind content snapshots cost) := by
  intro w
  rcases consult_cases scope kind content snapshots cost w with hrun | ⟨t, ht, hrun⟩
  · rw [hrun]
    exact refl_of _ w
  · rw [hrun]
    exact lookup_bodiless ht _ kind snapshots

/-- Nor does a sweep. -/
theorem sweep_bodiless (kind : SweepKind) (held : EntryId → Bool) :
    Leads Bodiless (sweep kind held) := by
  intro w hw
  rcases ht : w.supervisor.table with - | t
  · have hrun : (sweep kind held w).2 = w := by
      simp only [sweep, Supervisor.sweep, ht]
    rw [hrun]
    exact ⟨hw, .refl _⟩
  · obtain ⟨⟨t', ht', hindexed⟩, hunreported⟩ :=
      Indexed.sweep ⟨t, ht, hw t ht⟩ kind held
    refine ⟨fun t'' ht'' => ?_, .of_unreported hunreported⟩
    obtain rfl : t' = t'' := Option.some.inj (ht'.symm.trans ht'')
    exact hindexed

open Formula

/-- What takes the place of a formula brings no body, where the formula over its analysed parts
brings none. -/
theorem substitute_bodiless (f : Formula) {live : Work Formula} (hlive : Leads Bodiless live) :
    Leads Bodiless (substitute scope f live) := by
  have hobserve (g : Formula) (o : Observer) :
      Leads Bodiless (liftM (Formula.observe g o f.cost) : Work Formula) :=
    bodiless_ofRun fun m => Memory.bodiless_of_eq rfl
  refine (consult_bodiless scope .filter f.digest f.snapshotsDigest f.cost).bind fun answer => ?_
  rcases answer with - | (payload | i | i | -)
  · exact hlive
  · cases payload with
    | filter keys => exact bodiless_ofRun fun m => Memory.bodiless_of_eq rfl
    | _ => exact hlive
  · exact hlive.bind fun g => hobserve g _
  · exact hlive.bind fun g => hobserve g _
  · exact hlive

mutual

/-- Analysing a formula brings no body. -/
theorem analyseNode_bodiless (scope : Scope) (f : Formula) :
    Leads Bodiless (analyseNode scope f) := by
  have hrebuild (g : Formula) (children : List Formula) :
      Leads Bodiless (liftM (g.withChildren children) : Work Formula) :=
    bodiless_ofRun (g.withChildren_bodiless children)
  match f with
  | .empty _ | .constant _ _ | .index _ _ | .cached _ _ =>
    rw [analyseNode]
    exact .pure _
  | .and _ children | .or _ children =>
    rw [analyseNode]
    exact substitute_bodiless _ ((analyseNodes_bodiless scope children).bind fun _ => hrebuild _ _)
  | .not _ subtracted superset =>
    rw [analyseNode]
    exact substitute_bodiless _ ((analyseNode_bodiless scope subtracted).bind fun _ =>
      (analyseNode_bodiless scope superset).bind fun _ => hrebuild _ _)
  | .price _ source _ _ =>
    rw [analyseNode]
    exact substitute_bodiless _ ((analyseNode_bodiless scope source).bind fun _ => hrebuild _ _)
  | .observed _ inner _ _ =>
    rw [analyseNode]
    exact (analyseNode_bodiless scope inner).bind fun _ => hrebuild _ _

/-- Nor does analysing some formulas. -/
theorem analyseNodes_bodiless (scope : Scope) (fs : List Formula) :
    Leads Bodiless (analyseNodes scope fs) := by
  match fs with
  | [] =>
    rw [analyseNodes]
    exact .pure []
  | f :: rest =>
    rw [analyseNodes]
    exact (analyseNode_bodiless scope f).bind fun _ =>
      (analyseNodes_bodiless scope rest).bind fun _ => .pure _

end

end Workspace

/-! ## Planning -/

namespace PlanningPolicy

open Workspace

variable (policy : PlanningPolicy) (scope : Scope)

/-- Planning a formula brings no body. -/
theorem plan_bodiless (f : Formula) : Leads Bodiless (policy.plan scope f) := by
  match policy with
  | default =>
    refine Leads.get.bind fun w => ?_
    split_ifs
    · exact analyseNode_bodiless scope f
    · exact .pure f
  | cacheEnforcing => exact bodiless_ofRun f.enforceCachedForm_bodiless
  | prefetchFavouring => exact .pure f

/-- Nor does planning a count of facets. -/
theorem planFacets_bodiless (c : FacetCount) : Leads Bodiless (policy.planFacets scope c) := by
  match policy with
  | default =>
    have hexchange (x : Run FacetCount) (h : ∀ m, (x m).2.entries = m.entries) :
        Leads Bodiless (liftM x : Work FacetCount) :=
      bodiless_ofRun fun m => Memory.bodiless_of_eq (h m)
    refine (consult_bodiless scope .extra c.digest c.snapshotsDigest c.cost).bind fun answer => ?_
    rcases answer with - | (payload | i | i | -)
    · exact .pure c
    · cases payload with
      | extra summary => exact hexchange (c.replaying summary) fun _ => rfl
      | _ => exact .pure c
    · exact hexchange (c.observedBy _) fun _ => rfl
    · exact hexchange (c.observedBy _) fun _ => rfl
    · exact .pure c
  | cacheEnforcing => exact bodiless_ofRun c.toCachedForm_bodiless
  | prefetchFavouring => exact .pure c

/-- Nor does planning a merged order. -/
theorem planSorter_bodiless (r : MergedRecords) : Leads Bodiless (policy.planSorter scope r) := by
  match policy with
  | default =>
    have hexchange (x : Run MergedRecords) (h : ∀ m, (x m).2.entries = m.entries) :
        Leads Bodiless (liftM x : Work MergedRecords) :=
      bodiless_ofRun fun m => Memory.bodiless_of_eq (h m)
    refine (consult_bodiless scope .sorted r.digest r.snapshotsDigest r.cost).bind fun answer => ?_
    rcases answer with - | (payload | i | i | -)
    · exact .pure r
    · cases payload with
      | sorted order => exact hexchange (r.replaying order) fun _ => rfl
      | _ => exact .pure r
    · exact hexchange (r.observedBy _) fun _ => rfl
    · exact hexchange (r.observedBy _) fun _ => rfl
    · exact .pure r
  | cacheEnforcing => exact bodiless_ofRun r.toCachedForm_bodiless
  | prefetchFavouring => exact .pure r

end PlanningPolicy

/-! ## Nested queries -/

section

open Workspace

variable (policy : PlanningPolicy) (catalog : String)

/-- A nested query brings no body, where preparing its ordering brings none. -/
theorem nestedOrder_bodiless (scope : Scope) (filter : Formula) (ordering : SorterChain)
    {prepare : CandidateSet → Attempt Unit} (h : ∀ keys, Leads Bodiless (prepare keys).run) :
    Leads Bodiless (nestedOrder policy scope filter ordering prepare).run := by
  refine (Leads.step (policy.plan_bodiless scope filter)).andThen fun planned => ?_
  refine (Leads.step (bodiless_ofRun planned.compute_bodiless)).andThen fun keys => ?_
  refine (h keys).andThen fun _ => ?_
  refine Leads.andThen ?_ fun _ => .value _
  exact bodiless_ofRun (ordering.sort_bodiless keys 0 keys.size)

mutual

/-- Initializing a comparator brings no body. -/
theorem initializeComparator_bodiless (c : Comparator) (input : CandidateSet) :
    Leads Bodiless (initializeComparator policy catalog c input).run := by
  match c with
  | ⟨id, entityType, filter, ordering, references⟩ =>
    rw [initializeComparator]
    refine (Leads.step .get).andThen fun w => (Leads.outcome _).andThen fun ready => ?_
    cases ready with
    | true => exact .value ()
    | false =>
      refine (nestedOrder_bodiless policy ⟨catalog, entityType⟩ filter ordering fun keys =>
        initializeChain_bodiless ordering keys).andThen fun order => ?_
      exact Leads.step fun w hw => ⟨hw, .refl w.memory.entries⟩

/-- Nor does initializing the comparator of a sorter. -/
theorem initializeSorter_bodiless (s : Sorter) (input : CandidateSet) :
    Leads Bodiless (initializeSorter policy catalog s input).run := by
  match s with
  | .referenced c => exact initializeComparator_bodiless c input
  | .exact _ | .primaryKey | .reversedPrimaryKey | .preSorted _ | .external _ => exact .value ()

/-- Nor does initializing the comparators of a chain. -/
theorem initializeChain_bodiless (chain : List SortStage) (input : CandidateSet) :
    Leads Bodiless (initializeChain policy catalog chain input).run := by
  match chain with
  | [] =>
    rw [initializeChain_nil]
    exact .value ()
  | ⟨scope, sorter⟩ :: rest =>
    rw [initializeChain, initializeStage]
    exact (initializeSorter_bodiless sorter input).andThen fun _ =>
      initializeChain_bodiless rest input

end

end

end EntityQuery
