import EntityQuery.Cache.Supervisor
import EntityQuery.Memory

/-!
# Consulting a cache

Queries are answered with a cache at hand and a memory to work in. Computations are looked up by a
key that tells catalog, entity type, kind and what they are made of; the versions that they read are
not in the key, they decide whether a result that is found still holds. Computations that are too
cheap are not looked up at all.
-/

namespace EntityQuery

/-- Where a computation belongs. -/
structure Scope where
  catalog : String
  entityType : String
  deriving DecidableEq, Repr

/-- The key of a computation. -/
def recordKey (scope : Scope) (kind : RecordKind) (content : Digest) : Digest :=
  .ofList [.text scope.catalog, .text scope.entityType, .word kind.tag, content]

/-- The key of the body of an entity. -/
def bodyKey (scope : Scope) (primaryKey : Nat) : Digest :=
  .ofList [.text scope.catalog, .word primaryKey, .text scope.entityType,
    .word RecordKind.entity.tag]

/-- The key of a computation tells the parts that it is made of. -/
theorem recordKey_inj {s t : Scope} {k l : RecordKind} {c d : Digest} :
    recordKey s k c = recordKey t l d ↔ s = t ∧ k = l ∧ c = d := by
  cases s
  cases t
  have tag : k.tag = l.tag ↔ k = l := by cases k <;> cases l <;> decide
  simp [recordKey, Digest.ofList_inj, tag, and_assoc]

/-- The key of a body tells the parts that it is made of. -/
theorem bodyKey_inj {s t : Scope} {p q : Nat} : bodyKey s p = bodyKey t q ↔ s = t ∧ p = q := by
  cases s
  cases t
  simp only [bodyKey, Digest.ofList_inj, List.cons.injEq, Digest.text.injEq, Digest.word.injEq,
    Scope.mk.injEq, and_true]
  grind

/-- Computations and bodies of entities never share a key. -/
theorem recordKey_ne_bodyKey (s t : Scope) (k : RecordKind) (c : Digest) (p : Nat) :
    recordKey s k c ≠ bodyKey t p := by
  simp [recordKey, bodyKey, Digest.ofList_inj]

/-- A cache and the memory that goes with it. -/
structure Workspace where
  supervisor : Supervisor
  memory : Memory

/-- A computation that consults a cache. -/
abbrev Work : Type → Type := StateM Workspace

/-- What only uses the memory leaves the cache alone. -/
instance : MonadLift Run Work where
  monadLift x := fun w =>
    let (a, memory) := x w.memory
    (a, { w with memory })

namespace Workspace

/-- Looks a computation up in a table. -/
def lookup (table : Table) (key : Digest) (kind : RecordKind) (snapshots : Digest) :
    Work Lookup := fun w =>
  let c := table.lookup w.memory.entries key kind snapshots
  (c.answer,
    { supervisor := { w.supervisor with table := some c.table }
      memory := { w.memory with entries := c.entries } })

/-- Asks the cache for a computation: `none` when there is no cache or the computation is too
cheap. -/
def consult (scope : Scope) (kind : RecordKind) (content snapshots : Digest) (cost : Nat) :
    Work (Option Lookup) := do
  let w ← get
  match w.supervisor.table with
  | none => return none
  | some table =>
    if cost < w.supervisor.options.minimalCost then return none
    else return some (← lookup table (recordKey scope kind content) kind snapshots)

/-- A computation that is too cheap leaves the cache alone. -/
theorem consult_of_cheap {scope : Scope} {kind : RecordKind} {content snapshots : Digest}
    {cost : Nat} {w : Workspace} (h : cost < w.supervisor.options.minimalCost) :
    consult scope kind content snapshots cost w = (none, w) := by
  show (consult scope kind content snapshots cost).run w = (none, w)
  cases ht : w.supervisor.table <;> simp [consult, ht, h] <;> rfl

/-- Where there is no cache, nothing is looked up. -/
theorem consult_disabled {scope : Scope} {kind : RecordKind} {content snapshots : Digest}
    {cost : Nat} {w : Workspace} (h : w.supervisor.table = none) :
    consult scope kind content snapshots cost w = (none, w) := by
  show (consult scope kind content snapshots cost).run w = (none, w)
  simp [consult, h]
  rfl

/-- Asking the cache either looks up nothing, or it looks up the computation under its key. -/
theorem consult_cases (scope : Scope) (kind : RecordKind) (content snapshots : Digest) (cost : Nat)
    (w : Workspace) :
    consult scope kind content snapshots cost w = (none, w) ∨
      ∃ t, w.supervisor.table = some t ∧
        let r := lookup t (recordKey scope kind content) kind snapshots w
        consult scope kind content snapshots cost w = (some r.1, r.2) := by
  cases ht : w.supervisor.table with
  | none => exact .inl (consult_disabled ht)
  | some t =>
    by_cases hcheap : cost < w.supervisor.options.minimalCost
    · exact .inl (consult_of_cheap hcheap)
    · refine .inr ⟨t, rfl, ?_⟩
      show (consult scope kind content snapshots cost).run w = _
      simp [consult, ht, hcheap]
      rfl

/-- Sweeps the cache. `held` tells which adepts somebody else than the cache holds. -/
def sweep (kind : SweepKind) (held : EntryId → Bool) : Work (Option SweepReport) := fun w =>
  let (report, supervisor, entries) := w.supervisor.sweep kind held w.memory.entries
  (report, { supervisor, memory := { w.memory with entries } })

/-- Runs the early sweep that was asked for, if there is one. -/
def settle (held : EntryId → Bool) : Work Unit := do
  if (← get).supervisor.pending then
    let _ ← sweep .anteroom held

end Workspace

end EntityQuery
