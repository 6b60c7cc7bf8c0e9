import EntityQuery.Cache.Workspace
import EntityQuery.Proofs.Cache.Computation
import EntityQuery.Proofs.Cache.Results

/-!
# Faithful caches

The invariant of a cache is about entries and slots. Every result that an entry keeps is right for
the computations that the key of the entry names (`Entry.Right`), and every slot of the table
points to an entry with the key of the slot (`Table.Indexed`). Together this is
`Workspace.Faithful`.

Whatever happens to the entries leaves their keys as they are and keeps them right
(`Entries.Advances`): lookups and sweeps change no result (`Entries.Unreported`), and the result
that a first run leaves is right because the entry that is told of it belongs to what is run
(`Entries.Follows`).
-/

namespace EntityQuery

variable {C : Contents}

/-! ## Entries -/

/-- Whether the result that an entry keeps is right for the computations that its key names. -/
def Entry.Right (C : Contents) (e : Entry) : Prop :=
  ∀ scope kind content, e.key = recordKey scope kind content →
    ∀ r ∈ e.payload, r.2.RightFor C kind content r.1

namespace Entries

/-- Whether an observer tells an entry that follows the computations of some kind with a digest. -/
def Follows (entries : Entries) (o : Observer) (kind : RecordKind) (content : Digest) : Prop :=
  ∃ scope e, entries[o.entry]? = some e ∧ e.key = recordKey scope kind content

/-- Whether all entries are right. -/
def Right (C : Contents) (entries : Entries) : Prop :=
  ∀ (i : EntryId) (e : Entry), entries[i]? = some e → e.Right C

/-- What happens to entries in the course of time. -/
structure Advances (C : Contents) (old new : Entries) : Prop where
  /-- Entries keep their keys. -/
  keeps : Keeps old new
  /-- They stay right. -/
  right : Right C old → Right C new

/-- An entry that is followed stays the one that is followed. -/
theorem Follows.mono {old new : Entries} (hkeep : Keeps old new) {o : Observer} {kind : RecordKind}
    {content : Digest} (h : Follows old o kind content) : Follows new o kind content := by
  obtain ⟨scope, hkey⟩ := h
  exact ⟨scope, hkeep.exists_key hkey⟩

namespace Advances

/-- Nothing happens. -/
theorem refl (entries : Entries) : Advances C entries entries := ⟨.refl entries, id⟩

/-- One thing happens after the other. -/
theorem trans {a b c : Entries} (hab : Advances C a b) (hbc : Advances C b c) : Advances C a c :=
  ⟨hab.keeps.trans hbc.keeps, fun h => hbc.right (hab.right h)⟩

/-- While nothing is reported, results stay right. -/
theorem of_unreported {old new : Entries} (h : Unreported old new) : Advances C old new := by
  refine ⟨h.keeps, fun hall i e' he' scope kind content hcontent r hr => ?_⟩
  obtain ⟨e, he, hkey, hpayload⟩ := h.exists_old he' hr
  exact hall i e he scope kind content (hkey.trans hcontent) r hpayload

/-- A first run is reported to the entry that follows what was run. -/
theorem report {entries : Entries} {o : Observer} {kind : RecordKind} {content : Digest}
    {computed : Computed} (hfollows : Follows entries o kind content)
    (hright : computed.payload.RightFor C kind content computed.snapshots) :
    Advances C entries (o.report computed entries) := by
  refine ⟨.report entries o computed, fun hall i e' he' scope kind' content' hcontent r hr => ?_⟩
  obtain ⟨e, he, hkey, hold | ⟨rfl, rfl⟩⟩ := of_report he' hr
  · exact hall i e he scope kind' content' (hkey.trans hcontent) r hold
  · -- The key tells that the new result is for this digest.
    obtain ⟨scope₀, e₀, he₀, hkey₀⟩ := hfollows
    obtain rfl : e = e₀ := Option.some.inj (he.symm.trans he₀)
    obtain ⟨-, rfl, rfl⟩ := recordKey_inj.1 (hkey₀.symm.trans (hkey.trans hcontent))
    exact hright

end Advances

end Entries

/-! ## The table -/

/-- What a table may say of the computations of some kind with a digest, over some snapshots. -/
def Lookup.Right (C : Contents) (entries : Entries) (kind : RecordKind)
    (content snapshots : Digest) : Lookup → Prop
  | hit payload => payload.RightFor C kind content snapshots
  | record e => Entries.Follows entries (.recording e) kind content
  | adept e => Entries.Follows entries (.adept e) kind content
  | stale => True

namespace Table

/-- What a table says of a computation is right, and the table stays indexed. -/
theorem lookup_right {t : Table} {entries : Entries} (hindexed : t.Indexed entries)
    (hright : Entries.Right C entries) (scope : Scope) (kind : RecordKind)
    (content snapshots : Digest) :
    let c := t.lookup entries (recordKey scope kind content) kind snapshots
    c.table.Indexed c.entries ∧ Entries.Advances C entries c.entries
      ∧ c.answer.Right C c.entries kind content snapshots := by
  obtain ⟨hindexed', hunreported, hfor⟩ :=
    hindexed.lookup (recordKey scope kind content) kind snapshots
  have hadvances : Entries.Advances C entries _ := .of_unreported hunreported
  refine ⟨hindexed', hadvances, ?_⟩
  generalize (t.lookup entries (recordKey scope kind content) kind snapshots).answer = answer
    at hfor ⊢
  cases answer with
  | hit payload =>
    obtain ⟨i, e, he, hkey, hpayload⟩ := hfor
    exact hadvances.right hright i e he scope kind content hkey _ hpayload
  | record i => exact ⟨scope, hfor⟩
  | adept i => exact ⟨scope, hfor⟩
  | stale => trivial

/-- A sweep only drops slots and promotes adepts, and resets counters. -/
theorem sweep_right {t : Table} {entries : Entries} (hindexed : t.Indexed entries)
    (kind : SweepKind) (held : EntryId → Bool) :
    (t.sweep kind held entries).2.1.Indexed (t.sweep kind held entries).2.2
      ∧ Entries.Advances C entries (t.sweep kind held entries).2.2 := by
  obtain ⟨hindexed', hunreported⟩ := hindexed.sweep kind held
  exact ⟨hindexed', .of_unreported hunreported⟩

end Table

/-! ## The workspace -/

namespace Workspace

/-- The invariant of a cache. -/
structure Faithful (C : Contents) (w : Workspace) : Prop where
  /-- The entries are right. -/
  right : Entries.Right C w.memory.entries
  /-- The table, if there is one, is indexed. -/
  indexed : ∀ t ∈ w.supervisor.table, t.Indexed w.memory.entries

namespace Faithful

/-- An empty cache is faithful. -/
theorem start {options : CacheOptions} {supervisor : Supervisor} {memory : Memory}
    (hsupervisor : Supervisor.ofOptions options = .ok supervisor) (hmemory : memory.entries = #[]) :
    Faithful C ⟨supervisor, memory⟩ := by
  constructor
  · intro i e he
    have he : memory.entries[i]? = some e := he
    rw [hmemory] at he
    exact absurd he (by simp)
  · intro t ht s hs
    have ht : supervisor.table = some t := ht
    have hslots : t.slots = [] := Supervisor.slots_of_ofOptions hsupervisor ht
    rw [hslots] at hs
    exact absurd hs List.not_mem_nil

/-- A cache stays faithful whatever the memory is used for, as long as its entries advance. -/
theorem withMemory {w : Workspace} (h : w.Faithful C) {m : Memory}
    (hadvances : Entries.Advances C w.memory.entries m.entries) :
    Faithful C { w with memory := m } where
  right := hadvances.right h.right
  indexed t ht := (h.indexed t ht).mono hadvances.keeps

/-- A lookup keeps a cache faithful, its answer is right, and the entries keep their keys. -/
theorem consult {w : Workspace} (h : w.Faithful C) (scope : Scope) (kind : RecordKind)
    (content snapshots : Digest) (cost : ℕ) :
    let r := (Workspace.consult scope kind content snapshots cost).run w
    r.2.Faithful C ∧ Entries.Keeps w.memory.entries r.2.memory.entries
      ∧ ∀ answer ∈ r.1, answer.Right C r.2.memory.entries kind content snapshots := by
  intro r
  have hr : r = Workspace.consult scope kind content snapshots cost w := rfl
  rcases consult_cases scope kind content snapshots cost w with hrun | ⟨t, htable, hrun⟩
  · rw [hr, hrun]
    exact ⟨h, .refl _, fun answer hanswer => absurd hanswer (Option.not_mem_none answer)⟩
  · obtain ⟨hindexed, hadvances, hanswer⟩ := Table.lookup_right (h.indexed t htable) h.right scope
      kind content snapshots
    rw [hr, hrun]
    refine ⟨⟨hadvances.right h.right, ?_⟩, hadvances.keeps, ?_⟩
    · intro t' ht'
      obtain rfl := Option.some.inj ht'
      exact hindexed
    · intro answer hmem
      obtain rfl := Option.some.inj hmem
      exact hanswer

/-- A sweep keeps a cache faithful, and the entries keep their keys. -/
theorem sweep {w : Workspace} (h : w.Faithful C) (kind : SweepKind) (held : EntryId → Bool) :
    let r := (Workspace.sweep kind held).run w
    r.2.Faithful C ∧ Entries.Keeps w.memory.entries r.2.memory.entries := by
  rcases htable : w.supervisor.table with - | t
  · have hrun : (Workspace.sweep kind held).run w = (none, w) := by
      show Workspace.sweep kind held w = (none, w)
      simp [Workspace.sweep, Supervisor.sweep, htable]
    rw [hrun]
    exact ⟨h, .refl _⟩
  · obtain ⟨hindexed, hadvances⟩ := Table.sweep_right (C := C) (h.indexed t htable) kind held
    have hrun : (Workspace.sweep kind held).run w
        = (some (t.sweep kind held w.memory.entries).1,
          { supervisor :=
              { w.supervisor with table := some (t.sweep kind held w.memory.entries).2.1 }
            memory := { w.memory with entries := (t.sweep kind held w.memory.entries).2.2 } }) := by
      show Workspace.sweep kind held w = _
      simp [Workspace.sweep, Supervisor.sweep, htable]
    rw [hrun]
    refine ⟨⟨hadvances.right h.right, ?_⟩, hadvances.keeps⟩
    intro t' ht'
    obtain rfl := Option.some.inj ht'
    exact hindexed

end Faithful

end Workspace

end EntityQuery
