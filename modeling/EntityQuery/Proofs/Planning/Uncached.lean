import EntityQuery.Planning
import EntityQuery.Proofs.Formula.Built
import EntityQuery.Proofs.Sort.Slice

/-!
# Planning without a cache

Without a cache, whatever the policy plans has the result of what it was given. At most the results
are computed at once, and what is planned replays them. The memory may come to know more
computations, but no comparator is placed on the way (`Workspace.Steady`).
-/

namespace EntityQuery

/-- What planning and computing leave as it is: the cache and the places of the comparators. -/
structure Workspace.Steady (w w' : Workspace) : Prop where
  /-- The cache is the same. -/
  supervisor_eq : w'.supervisor = w.supervisor
  /-- The places are the same. -/
  placements_eq : w'.memory.placements = w.memory.placements

namespace Workspace.Steady

/-- Nothing is changed by doing nothing. -/
theorem refl (w : Workspace) : Steady w w := ⟨rfl, rfl⟩

/-- Two changes that leave cache and places alone do so together. -/
theorem trans {a b c : Workspace} (hab : Steady a b) (hbc : Steady b c) : Steady a c :=
  ⟨hbc.supervisor_eq.trans hab.supervisor_eq, hbc.placements_eq.trans hab.placements_eq⟩

/-- A change of the memory that places nothing. -/
theorem of_memory (w : Workspace) {m : Memory} (h : m.placements = w.memory.placements) :
    Steady w { w with memory := m } := ⟨rfl, h⟩

end Workspace.Steady

/-- What uses the memory only leaves the cache alone. -/
theorem Workspace.run_memory {α : Type} {x : Run α} {w : Workspace} {a : α} {m : Memory}
    (h : x w.memory = (a, m)) : (liftM x : Work α) w = (a, { w with memory := m }) := by
  have hrun : (liftM x : Work α) w = ((x w.memory).1, { w with memory := (x w.memory).2 }) := rfl
  rw [hrun, h]

namespace Formula

/-- Computing all that can be cached leaves a formula with the same result, and places nothing. -/
theorem toCachedForm_spec {f : Formula} (h : f.Built .any) (m : Memory) :
    (f.toCachedForm m).1.Built .any ∧ (f.toCachedForm m).1.result = f.result ∧
      (f.toCachedForm m).2.placements = m.placements := by
  unfold toCachedForm
  by_cases hresult : f.isMaterialized
  · rw [if_pos hresult]
    exact ⟨h, rfl, rfl⟩
  · rw [if_neg hresult]
    exact ⟨.cached _ h rfl, rfl, h.placements_visit m⟩

/-- Enforcing cached forms leaves a formula with the same result, and places nothing. -/
theorem enforceCachedForm_spec {f : Formula} (h : f.Built .any) (m : Memory) :
    (f.enforceCachedForm m).1.Built .any ∧ (f.enforceCachedForm m).1.result = f.result ∧
      (f.enforceCachedForm m).2.placements = m.placements := by
  induction h with
  | empty id => exact ⟨.empty id, rfl, rfl⟩
  | constant id keys => exact ⟨.constant id keys, rfl, rfl⟩
  | index id hs => exact ⟨.index id hs, rfl, rfl⟩
  | cached id hf hkeys _ => exact ⟨.cached id hf hkeys, rfl, rfl⟩
  | and id hne hc _ => exact toCachedForm_spec (.and id hne hc) m
  | or id hne hc _ => exact toCachedForm_spec (.or id hne hc) m
  | not id hf hg _ _ => exact toCachedForm_spec (.not id hf hg) m
  | price id hs hp _ => exact toCachedForm_spec (.price id hs hp) m
  | @observed id inner o cost hinner ho ih =>
    -- An observed computation is entered, and observed again where something has changed in it.
    obtain ⟨hbuilt, hresult, hplaces⟩ := ih
    have hrun : (Formula.observed (observedProfile id inner) inner o cost).enforceCachedForm m
        = (Formula.observed (observedProfile id inner) inner o cost).withChildren
            [(inner.enforceCachedForm m).1] (inner.enforceCachedForm m).2 := rfl
    rw [hrun]
    unfold withChildren
    by_cases hsame : sameObjects (Formula.observed (observedProfile id inner) inner o cost).children
        [(inner.enforceCachedForm m).1]
    · rw [if_pos hsame]
      exact ⟨.observed id cost hinner ho, rfl, hplaces⟩
    · rw [if_neg hsame]
      exact ⟨.observed _ cost hbuilt trivial, hresult, hplaces⟩

end Formula

namespace FacetCount

/-- Counting facets places nothing. -/
theorem placements_visit {c : FacetCount} (h : c.filter.Built .any) (m : Memory) :
    (c.visit m).placements = m.placements := by
  unfold visit
  split_ifs
  · rfl
  · rw [← h.placements_visit m]
    exact Memory.placements_report _ c.observer c.outcome

/-- A count that is made at once has the same result. -/
theorem toCachedForm_spec {c : FacetCount} (h : c.filter.Built .any) (m : Memory) :
    (c.toCachedForm m).1.filter = c.filter ∧ (c.toCachedForm m).1.result.get = c.result.get ∧
      (c.toCachedForm m).2.placements = m.placements := by
  have hrun : c.toCachedForm m = (if c.isComputed m && c.observer.isNone then pure c
      else c.compute >>= c.replaying : Run _) m := rfl
  rw [hrun]
  split_ifs
  · exact ⟨rfl, rfl, rfl⟩
  · exact ⟨rfl, rfl, placements_visit h m⟩

end FacetCount

namespace MergedRecords

/-- An order that is merged at once has the same result. -/
theorem toCachedForm_spec (r : MergedRecords) (m : Memory) :
    (r.toCachedForm m).1.result.get = r.result.get ∧
      (r.toCachedForm m).2.placements = m.placements := by
  have hrun : r.toCachedForm m = (if r.isComputed m && r.observer.isNone then pure r
      else r.compute >>= r.replaying : Run _) m := rfl
  rw [hrun]
  split_ifs
  · exact ⟨rfl, rfl⟩
  · exact ⟨rfl, r.placements_visit m⟩

end MergedRecords

namespace PlanningPolicy

variable (policy : PlanningPolicy) (scope : Scope) {w : Workspace}
  (hw : w.supervisor.isEnabled = false)

include hw

/-- A planned formula has the result of the formula. -/
theorem plan_disabled {f : Formula} (h : f.Built .any) :
    (policy.plan scope f w).1.Built .any ∧ (policy.plan scope f w).1.result = f.result ∧
      w.Steady (policy.plan scope f w).2 := by
  match policy with
  | .default =>
    rw [plan, Workspace.analyse_disabled hw]
    exact ⟨h, rfl, .refl w⟩
  | .cacheEnforcing =>
    obtain ⟨hbuilt, hresult, hplaces⟩ := f.enforceCachedForm_spec h w.memory
    exact ⟨hbuilt, hresult, .of_memory w hplaces⟩
  | .prefetchFavouring => exact ⟨h, rfl, .refl w⟩

/-- A planned count of facets has the result of the count, over the same filter. -/
theorem planFacets_disabled {c : FacetCount} (h : c.filter.Built .any) :
    (policy.planFacets scope c w).1.filter = c.filter ∧
      (policy.planFacets scope c w).1.result.get = c.result.get ∧
      w.Steady (policy.planFacets scope c w).2 := by
  have hnone : w.supervisor.table = none := by simpa [Supervisor.isEnabled] using hw
  match policy with
  | .default =>
    rw [planFacets, Workspace.analyseFacets_of_consult (Workspace.consult_disabled hnone)]
    exact ⟨rfl, rfl, .refl w⟩
  | .cacheEnforcing =>
    obtain ⟨hfilter, hresult, hplaces⟩ := c.toCachedForm_spec h w.memory
    exact ⟨hfilter, hresult, .of_memory w hplaces⟩
  | .prefetchFavouring => exact ⟨rfl, rfl, .refl w⟩

/-- A planned merged order has the result of the order. -/
theorem planSorter_disabled (r : MergedRecords) :
    (policy.planSorter scope r w).1.result.get = r.result.get ∧
      w.Steady (policy.planSorter scope r w).2 := by
  have hnone : w.supervisor.table = none := by simpa [Supervisor.isEnabled] using hw
  match policy with
  | .default =>
    rw [planSorter, Workspace.analyseSorter_of_consult (Workspace.consult_disabled hnone)]
    exact ⟨rfl, .refl w⟩
  | .cacheEnforcing =>
    obtain ⟨hresult, hplaces⟩ := r.toCachedForm_spec w.memory
    exact ⟨hresult, .of_memory w hplaces⟩
  | .prefetchFavouring => exact ⟨rfl, .refl w⟩

end PlanningPolicy

end EntityQuery
