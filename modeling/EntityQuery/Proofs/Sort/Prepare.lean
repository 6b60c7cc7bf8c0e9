import EntityQuery.Proofs.Planning.Uncached
import EntityQuery.Sort.Nested

/-!
# Orders by reference, at any depth

The comparators of a chain have queries of their own, the orderings of which may have comparators
again. `Comparator.places` is where a comparator puts entities, read off these queries alone, and
`SorterChain.order` is the full order that comes of it. `initializeChain_run` shows that without a
cache, initializing a chain whose comparators are fresh and differ at every depth succeeds and puts
the entities there; on a chain that is initialized already it does nothing.
-/

namespace EntityQuery

/-! ## Comparators at any depth -/

mutual

/-- A comparator with all comparators that its query orders by, at any depth. -/
def Comparator.comparators : Comparator → List Comparator
  | ⟨id, entityType, filter, ordering, references⟩ =>
    ⟨id, entityType, filter, ordering, references⟩ :: SorterChain.comparators ordering

/-- The comparators of a sorter, at any depth. -/
def Sorter.comparators : Sorter → List Comparator
  | .referenced comparator => comparator.comparators
  | .exact _ | .primaryKey | .reversedPrimaryKey | .preSorted _ | .external _ => []

/-- The comparators of a chain, at any depth. -/
def SorterChain.comparators : List SortStage → List Comparator
  | [] => []
  | ⟨_, sorter⟩ :: rest => sorter.comparators ++ SorterChain.comparators rest

end

mutual

/-- Where a comparator puts entities: by the order of all matches of its query. -/
def Comparator.places : Comparator → CandidateSet → Placement
  | ⟨_, _, filter, ordering, references⟩, input =>
    .ofOrder references (SorterChain.orderWithin ordering filter.result filter.result) input

/-- The positions by which a sorter orders some entities, where it orders by reference. -/
def Sorter.position : Sorter → CandidateSet → ℕ → Option ℕ
  | .referenced comparator, input => (comparator.places input).positionOf
  | .exact _, _ | .primaryKey, _ | .reversedPrimaryKey, _ | .preSorted _, _ | .external _, _ =>
    fun _ => none

/-- The full order of some keys among the entities for which the chain is initialized. -/
def SorterChain.orderWithin : List SortStage → CandidateSet → CandidateSet → List ℕ
  | [], _, keys => keys.keys
  | ⟨_, sorter⟩ :: rest, input, keys =>
    let emitted := sorter.emits (fun _ => sorter.position input) keys
    emitted ++ SorterChain.orderWithin rest input (keys.without emitted)

end

/-- What a sorter emits depends on the positions of its own comparator only. -/
theorem Sorter.emits_congr {p q : Comparator → ℕ → Option ℕ} {s : Sorter}
    (h : ∀ c, s = .referenced c → p c = q c) (keys : CandidateSet) :
    s.emits p keys = s.emits q keys := by
  match s with
  | .exact _ | .primaryKey | .reversedPrimaryKey | .preSorted _ | .external _ => rfl
  | .referenced c => rw [emits, emits, h c rfl]

namespace SorterChain

/-- The full order depends on the positions of the comparators of the chain only. -/
theorem fullOrder_congr {p q : Comparator → ℕ → Option ℕ} {chain : SorterChain}
    (h : ∀ stage ∈ chain, ∀ c, stage.sorter = .referenced c → p c = q c) (keys : CandidateSet) :
    fullOrder p chain keys = fullOrder q chain keys := by
  induction chain generalizing keys with
  | nil => rfl
  | cons stage rest ih =>
    have hrest := ih fun stage' hstage' => h stage' (List.mem_cons_of_mem stage hstage')
    rw [fullOrder, fullOrder, Sorter.emits_congr (h stage List.mem_cons_self), hrest]

/-- The full order of a chain, with the positions that its comparators give to the keys. -/
def order (chain : SorterChain) (keys : CandidateSet) : List ℕ :=
  fullOrder (fun c => (c.places keys).positionOf) chain keys

/-- The order of keys among entities is the full order with the positions for these entities. -/
theorem orderWithin_eq (chain : SorterChain) (input keys : CandidateSet) :
    orderWithin chain input keys = fullOrder (fun c => (c.places input).positionOf) chain keys := by
  induction chain generalizing keys with
  | nil => rfl
  | cons stage rest ih =>
    obtain ⟨scope, sorter⟩ := stage
    have hsorter : sorter.emits (fun _ => sorter.position input) keys
        = sorter.emits (fun c => (c.places input).positionOf) keys := by
      refine Sorter.emits_congr (fun c hc => ?_) keys
      rw [hc, Sorter.position]
    rw [orderWithin, fullOrder, hsorter, ih]

/-- The order of a chain is a permutation of its keys. -/
theorem order_perm (chain : SorterChain) (keys : CandidateSet) :
    (order chain keys).Perm keys.keys := fullOrder_perm _ chain keys

end SorterChain

/-- A comparator places entities by the order of its query. -/
theorem Comparator.places_eq (c : Comparator) (input : CandidateSet) :
    c.places input
      = .ofOrder c.references (SorterChain.order c.ordering c.filter.result) input := by
  obtain ⟨id, entityType, filter, ordering, references⟩ := c
  rw [Comparator.places, SorterChain.orderWithin_eq]
  rfl

/-! ## Initializing comparators -/

/-- A computation that cannot fail, as one that can. -/
theorem run_liftM {σ ε α : Type} {x : StateM σ α} {s s' : σ} {a : α} (h : x s = (a, s')) :
    (liftM x : ExceptT ε (StateM σ) α).run s = (.ok a, s') := by
  have hrun : (liftM x : ExceptT ε (StateM σ) α).run s = (.ok (x s).1, (x s).2) := rfl
  rw [hrun, h]

/-- What uses the memory only and may fail leaves the cache alone. -/
theorem Attempt.run_ofRun {α : Type} {x : ExceptT Error Run α} {w : Workspace}
    {a : Except Error α} {m : Memory} (h : x.run w.memory = (a, m)) :
    (Attempt.ofRun x).run w = (a, { w with memory := m }) := by
  have hrun : (Attempt.ofRun x).run w
      = ((x.run w.memory).1, { w with memory := (x.run w.memory).2 }) := rfl
  rw [hrun, h]

namespace Comparator

/-- Whether neither a comparator nor one that its query needs has been initialized. -/
def Fresh (c : Comparator) (m : Memory) : Prop :=
  ∀ d ∈ c.comparators, m.placements[d.id]? = none

/-- Whether a comparator is initialized for some entities as its query says. -/
def Prepared (c : Comparator) (m : Memory) (input : CandidateSet) : Prop :=
  m.placements[c.id]? = some (c.places input)

/-- A comparator is among its comparators. -/
theorem mem_comparators (c : Comparator) : c ∈ c.comparators := by
  obtain ⟨id, entityType, filter, ordering, references⟩ := c
  exact List.mem_cons_self

end Comparator

namespace Sorter

/-- Whether a sorter can be initialized for some entities: its comparator is fresh, or it is
initialized for them already. -/
def Preparable (s : Sorter) (m : Memory) (input : CandidateSet) : Prop :=
  ∀ c, s = .referenced c → c.Fresh m ∨ c.Prepared m input

/-- Whether a sorter can be initialized is read off the places only. -/
theorem Preparable.congr {s : Sorter} {m m' : Memory} {input : CandidateSet}
    (h : s.Preparable m input) (hplaces : m'.placements = m.placements) :
    s.Preparable m' input := by
  intro c hc
  unfold Comparator.Fresh Comparator.Prepared
  rw [hplaces]
  exact h c hc

/-- Whether the comparator of a sorter, if it has one, is initialized as its query says. -/
def Prepared (s : Sorter) (m : Memory) (input : CandidateSet) : Prop :=
  ∀ c, s = .referenced c → c.Prepared m input

end Sorter

/-- The identities of some comparators. -/
abbrev idsOf (comparators : List Comparator) : List ComparatorId := comparators.map (·.id)

/-- What initializing some comparators leaves as it is: the cache, and the places of all other
comparators. -/
structure Workspace.Confined (comparators : List Comparator) (w w' : Workspace) : Prop where
  /-- The cache is the same. -/
  supervisor_eq : w'.supervisor = w.supervisor
  /-- The places of other comparators are the same. -/
  placements_eq : ∀ id ∉ idsOf comparators,
    w'.memory.placements[id]? = w.memory.placements[id]?

/-- Prepared comparators sort a set as their queries say. -/
theorem SorterChain.sort_all {m : Memory} {chain : SorterChain} {keys : CandidateSet}
    (hready : ∀ stage ∈ chain, stage.sorter.Prepared m keys) (start stop : ℕ) :
    ∃ skipped m', (SorterChain.sort chain keys start stop).run m
        = (.ok ((order chain keys).extract (min start keys.size) (min stop keys.size), skipped),
            m') ∧
      m'.placements = m.placements := by
  have hinitialized : ∀ stage ∈ chain, stage.sorter.InitializedFor m keys := by
    intro stage hstage c hc
    refine ⟨order c.ordering c.filter.result, ?_⟩
    rw [← c.places_eq]
    exact hready stage hstage c hc
  have horder : fullOrder m.position chain keys = order chain keys := by
    refine fullOrder_congr (fun stage hstage c hc => ?_) keys
    funext k
    rw [Memory.position, hready stage hstage c hc, Option.bind_some]
  obtain ⟨skipped, m', hrun, hplacements, -⟩ := sort_spec hinitialized start stop
  exact ⟨skipped, m', horder ▸ hrun, hplacements⟩

section

variable (policy : PlanningPolicy) (catalog : String)

/-- An action that is taken only where something is not ready. -/
theorem run_unless {x : Except Error Bool} {ready : Bool} (hx : x = .ok ready)
    (action : Attempt Unit) (w : Workspace) :
    ((liftM x : Attempt Bool) >>= fun ready => unless ready do action).run w
      = if ready then (.ok (), w) else action.run w := by
  rw [hx]
  rcases ready with - | -
  · rfl
  · rfl

/-- A comparator that is initialized for the entities already is left alone. -/
theorem initializeComparator_of_prepared {c : Comparator} {input : CandidateSet} {w : Workspace}
    (h : c.Prepared w.memory input) :
    (initializeComparator policy catalog c input).run w = (.ok (), w) := by
  have hready : c.isReadyFor w.memory input = .ok true := by
    have hinput : (c.places input).input = input := by
      rw [c.places_eq]
      rfl
    rw [Comparator.isReadyFor, h]
    exact if_pos hinput
  obtain ⟨id, entityType, filter, ordering, references⟩ := c
  rw [initializeComparator]
  exact run_unless hready _ w

/-- A fresh comparator runs its query. -/
theorem initializeComparator_of_fresh {c : Comparator} {input : CandidateSet} {w : Workspace}
    (h : c.Fresh w.memory) :
    (initializeComparator policy catalog c input).run w
      = (nestedOrder policy ⟨catalog, c.entityType⟩ c.filter c.ordering
            (initializeChain policy catalog c.ordering) >>= fun order =>
          modify fun w => { w with memory := c.place order input w.memory }).run w := by
  have hready : c.isReadyFor w.memory input = .ok false := by
    rw [Comparator.isReadyFor, h c c.mem_comparators]
  obtain ⟨id, entityType, filter, ordering, references⟩ := c
  rw [initializeComparator]
  exact run_unless hready _ w

/-- Without a cache, a nested query gives the order of its matches, if its comparators can be
prepared for them. -/
theorem nestedOrder_run (scope : Scope) {filter : Formula} {ordering : SorterChain}
    (prepare : CandidateSet → Attempt Unit) {w : Workspace}
    (hw : w.supervisor.isEnabled = false) (hfilter : filter.Built .any)
    (hprepare : ∀ w', w.Steady w' → ∃ w'', (prepare filter.result).run w' = (.ok (), w'') ∧
      w'.Confined (SorterChain.comparators ordering) w'' ∧
      ∀ stage ∈ ordering, stage.sorter.Prepared w''.memory filter.result) :
    ∃ w'', (nestedOrder policy scope filter ordering prepare).run w
        = (.ok (SorterChain.order ordering filter.result), w'') ∧
      w.Confined (SorterChain.comparators ordering) w'' := by
  obtain ⟨hbuilt, hresult, hplanned⟩ := policy.plan_disabled scope hw hfilter
  -- The filter is planned and computed first, which leaves all comparators alone.
  obtain ⟨planned, w₁, hplan⟩ : ∃ planned w₁, policy.plan scope filter w = (planned, w₁) :=
    ⟨_, _, rfl⟩
  rw [hplan] at hbuilt hresult hplanned
  let w₂ : Workspace := { w₁ with memory := planned.visit w₁.memory }
  have hsteady : w.Steady w₂ := hplanned.trans (.of_memory w₁ (hbuilt.placements_visit w₁.memory))
  -- Then the comparators of the query are prepared, and its matches are sorted as a whole.
  obtain ⟨w₃, hprepared, hconfined, hready⟩ := hprepare w₂ hsteady
  obtain ⟨skipped, m', hsort, hplacements⟩ :=
    SorterChain.sort_all hready 0 filter.result.size
  have hall : (SorterChain.order ordering filter.result).extract (min 0 filter.result.size)
      (min filter.result.size filter.result.size) = SorterChain.order ordering filter.result := by
    have hlength : (SorterChain.order ordering filter.result).length = filter.result.size :=
      (SorterChain.order_perm ordering filter.result).length_eq
    rw [List.extract_eq_take_drop, Nat.zero_min, min_self, List.drop_zero, Nat.sub_zero, ← hlength,
      List.take_length]
  rw [hall] at hsort
  refine ⟨{ w₃ with memory := m' }, ?_, ?_, ?_⟩
  · have hplan' : (liftM (policy.plan scope filter) : Attempt Formula).run w = (.ok planned, w₁) :=
      run_liftM hplan
    have hcompute : (liftM planned.compute : Attempt CandidateSet).run w₁
        = (.ok filter.result, w₂) := congrArg (fun keys => (Except.ok keys, w₂)) hresult
    have hsort' : (Attempt.ofRun (SorterChain.sort ordering filter.result 0
        filter.result.size)).run w₃
          = (.ok (SorterChain.order ordering filter.result, skipped), { w₃ with memory := m' }) :=
      Attempt.run_ofRun hsort
    unfold nestedOrder
    rw [run_bind_of_ok hplan', run_bind_of_ok hcompute, run_bind_of_ok hprepared,
      run_bind_of_ok hsort']
    rfl
  · exact hconfined.supervisor_eq.trans hsteady.supervisor_eq
  · intro id hid
    rw [← hsteady.placements_eq, ← hconfined.placements_eq id hid]
    exact congrArg (·[id]?) hplacements

/-- A comparator that is placed elsewhere stays fresh or prepared. -/
theorem Sorter.Preparable.of_confined {s : Sorter} {comparators : List Comparator}
    {w w' : Workspace} {input : CandidateSet} (h : s.Preparable w.memory input)
    (hw : w.Confined comparators w')
    (hdisjoint : ∀ id ∈ idsOf s.comparators, id ∉ idsOf comparators) :
    s.Preparable w'.memory input := by
  intro c hc
  subst hc
  have hsame : ∀ d ∈ c.comparators, w'.memory.placements[d.id]? = w.memory.placements[d.id]? :=
    fun d hd => hw.placements_eq d.id (hdisjoint d.id (List.mem_map_of_mem hd))
  rcases h c rfl with hfresh | hprepared
  · exact Or.inl fun d hd => (hsame d hd).trans (hfresh d hd)
  · exact Or.inr ((hsame c c.mem_comparators).trans hprepared)

/-- The comparators of a stage are among those of the chain. -/
theorem SorterChain.mem_comparators {chain : SorterChain} {stage : SortStage}
    (hstage : stage ∈ chain) {d : Comparator} (hd : d ∈ stage.sorter.comparators) :
    d ∈ SorterChain.comparators chain := by
  induction chain with
  | nil => exact absurd hstage List.not_mem_nil
  | cons first rest ih =>
    obtain ⟨scope, sorter⟩ := first
    rw [SorterChain.comparators, List.mem_append]
    rcases List.mem_cons.mp hstage with rfl | hrest
    · exact Or.inl hd
    · exact Or.inr (ih hrest)

/-- A fresh comparator is placed when its query was run. -/
theorem Comparator.place_confined {c : Comparator} {input : CandidateSet} {w w' : Workspace}
    (h : w.Confined (SorterChain.comparators c.ordering) w') :
    w.Confined c.comparators ⟨w'.supervisor,
        c.place (SorterChain.order c.ordering c.filter.result) input w'.memory⟩ ∧
      c.Prepared (c.place (SorterChain.order c.ordering c.filter.result) input w'.memory)
        input := by
  refine ⟨⟨h.supervisor_eq, fun id hid => ?_⟩, ?_⟩
  · have hc : c.comparators = c :: SorterChain.comparators c.ordering := by
      obtain ⟨_, _, _, _, _⟩ := c
      rfl
    rw [idsOf, hc, List.map_cons, List.mem_cons, not_or] at hid
    rw [← h.placements_eq id hid.2]
    exact Std.HashMap.getElem?_insert.trans (if_neg (by simpa using Ne.symm hid.1))
  · rw [Prepared, places_eq]
    exact Std.HashMap.getElem?_insert_self

mutual

/-- Without a cache, a fresh comparator or one that is initialized for the entities already can be
initialized for them, and no other comparator is touched. -/
theorem initializeComparator_run (c : Comparator) (input : CandidateSet) {w : Workspace}
    (hw : w.supervisor.isEnabled = false) (hfilters : ∀ d ∈ c.comparators, d.filter.Built .any)
    (hnodup : (idsOf c.comparators).Nodup) (h : c.Fresh w.memory ∨ c.Prepared w.memory input) :
    ∃ w', (initializeComparator policy catalog c input).run w = (.ok (), w') ∧
      w.Confined c.comparators w' ∧ c.Prepared w'.memory input := by
  rcases h with hfresh | hprepared
  · match c with
    | ⟨id, entityType, filter, ordering, references⟩ =>
      have hordering : ∀ d ∈ SorterChain.comparators ordering,
          d ∈ (Comparator.mk id entityType filter ordering references).comparators :=
        fun d hd => List.mem_cons_of_mem _ hd
      -- Its own comparators are fresh too, and planning its filter leaves them so.
      have hfreshChain {w' : Workspace} (hsteady : w.Steady w') :
          ∀ stage ∈ ordering, stage.sorter.Preparable w'.memory filter.result := by
        intro stage hstage d hd
        refine Or.inl fun e he => ?_
        have he' : e ∈ stage.sorter.comparators := by
          rw [hd]
          exact he
        rw [hsteady.placements_eq]
        exact hfresh e (hordering e (SorterChain.mem_comparators hstage he'))
      have hprepare (w' : Workspace) (hsteady : w.Steady w') :=
        initializeChain_run ordering filter.result (hsteady.supervisor_eq ▸ hw)
          (fun d hd => hfilters d (hordering d hd)) (List.nodup_cons.mp hnodup).2
          (hfreshChain hsteady)
      obtain ⟨w'', hnested, hconfined⟩ := nestedOrder_run policy ⟨catalog, entityType⟩
        (initializeChain policy catalog ordering) hw (hfilters _ (Comparator.mem_comparators _))
        hprepare
      rw [initializeComparator_of_fresh policy catalog hfresh, run_bind_of_ok hnested]
      exact ⟨_, rfl, Comparator.place_confined
        (c := ⟨id, entityType, filter, ordering, references⟩) hconfined⟩
  · exact ⟨w, initializeComparator_of_prepared policy catalog hprepared, ⟨rfl, fun _ _ => rfl⟩,
      hprepared⟩

/-- The same holds of a sorter. -/
theorem initializeSorter_run (s : Sorter) (input : CandidateSet) {w : Workspace}
    (hw : w.supervisor.isEnabled = false) (hfilters : ∀ d ∈ s.comparators, d.filter.Built .any)
    (hnodup : (idsOf s.comparators).Nodup) (h : s.Preparable w.memory input) :
    ∃ w', (initializeSorter policy catalog s input).run w = (.ok (), w') ∧
      w.Confined s.comparators w' ∧ s.Prepared w'.memory input := by
  match s with
  | .referenced c =>
    obtain ⟨w', hrun, hconfined, hprepared⟩ :=
      initializeComparator_run c input hw hfilters hnodup (h c rfl)
    refine ⟨w', hrun, hconfined, fun d hd => ?_⟩
    exact Sorter.referenced.inj hd ▸ hprepared
  | .exact _ | .primaryKey | .reversedPrimaryKey | .preSorted _ | .external _ =>
    exact ⟨w, rfl, ⟨rfl, fun _ _ => rfl⟩, fun c hc => nomatch hc⟩

/-- The same holds of a chain. -/
theorem initializeChain_run (chain : List SortStage) (input : CandidateSet) {w : Workspace}
    (hw : w.supervisor.isEnabled = false)
    (hfilters : ∀ d ∈ SorterChain.comparators chain, d.filter.Built .any)
    (hnodup : (idsOf (SorterChain.comparators chain)).Nodup)
    (h : ∀ stage ∈ chain, stage.sorter.Preparable w.memory input) :
    ∃ w', (initializeChain policy catalog chain input).run w = (.ok (), w') ∧
      w.Confined (SorterChain.comparators chain) w' ∧
      ∀ stage ∈ chain, stage.sorter.Prepared w'.memory input := by
  match chain with
  | [] => exact ⟨w, rfl, ⟨rfl, fun _ _ => rfl⟩, fun _ h => absurd h List.not_mem_nil⟩
  | ⟨scope, sorter⟩ :: rest =>
    rw [SorterChain.comparators] at hfilters hnodup ⊢
    rw [idsOf, List.map_append, List.nodup_append] at hnodup
    obtain ⟨hsorter, hrest, hdisjoint⟩ := hnodup
    obtain ⟨w₁, hrun₁, hconfined₁, hprepared₁⟩ := initializeSorter_run sorter input hw
      (fun d hd => hfilters d (List.mem_append_left _ hd)) hsorter (h _ List.mem_cons_self)
    -- The stages behind it have other comparators, so they can still be prepared.
    have hlater : ∀ stage ∈ rest, stage.sorter.Preparable w₁.memory input := by
      intro stage hstage
      refine (h stage (List.mem_cons_of_mem _ hstage)).of_confined hconfined₁ fun id hid hsame => ?_
      obtain ⟨d, hd, rfl⟩ := List.mem_map.mp hid
      exact hdisjoint d.id hsame d.id (List.mem_map_of_mem (SorterChain.mem_comparators hstage hd))
        rfl
    obtain ⟨w₂, hrun₂, hconfined₂, hprepared₂⟩ := initializeChain_run rest input
      (hconfined₁.supervisor_eq ▸ hw) (fun d hd => hfilters d (List.mem_append_right _ hd)) hrest
      hlater
    refine ⟨w₂, ?_, ⟨hconfined₂.supervisor_eq.trans hconfined₁.supervisor_eq, fun id hid => ?_⟩,
      fun stage hstage => ?_⟩
    · rw [initializeChain, initializeStage, run_bind_of_ok hrun₁]
      exact hrun₂
    · rw [idsOf, List.map_append, List.mem_append, not_or] at hid
      rw [hconfined₂.placements_eq id hid.2, hconfined₁.placements_eq id hid.1]
    · rcases List.mem_cons.mp hstage with rfl | hstage
      · -- What the first stage has prepared, the others do not touch.
        intro c hc
        have hid : c.id ∈ idsOf sorter.comparators := by
          rw [show sorter = .referenced c from hc]
          exact List.mem_map_of_mem c.mem_comparators
        have hother : c.id ∉ idsOf (SorterChain.comparators rest) :=
          fun hsame => hdisjoint c.id hid c.id hsame rfl
        exact (hconfined₂.placements_eq c.id hother).trans (hprepared₁ c hc)
      · exact hprepared₂ stage hstage

end

end

end EntityQuery
