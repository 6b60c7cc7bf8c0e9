import EntityQuery.Cache.Sweep

/-!
# Supervisors

A supervisor owns the table of a cache, or none where caching is switched off.
-/

namespace EntityQuery

/-- The owner of a cache. -/
structure Supervisor where
  options : CacheOptions
  /-- The table, unless caching is switched off. -/
  table : Option Table

namespace Supervisor

/-- The supervisor of an empty cache. -/
def ofOptions (options : CacheOptions) : Except Error Supervisor := do
  options.validate
  return ⟨options, if options.enabled then some { options } else none⟩

/-- The supervisor of no cache. -/
def disabled : Supervisor := ⟨.disabled, none⟩

/-- If options give a table at all, it has no slots. -/
theorem slots_of_ofOptions {options : CacheOptions} {s : Supervisor} {t : Table}
    (h : ofOptions options = .ok s) (ht : s.table = some t) : t.slots = [] := by
  unfold ofOptions at h
  rcases hvalid : options.validate with e | valid
  · rw [hvalid] at h
    exact absurd h (by simp [bind, Except.bind])
  · rw [hvalid] at h
    obtain rfl := Except.ok.inj h
    rcases henabled : options.enabled with - | -
    · simp [henabled] at ht
    · simp only [henabled, if_true, Option.some.injEq] at ht
      rw [← ht]

/-- Whether there is a cache. -/
def isEnabled (s : Supervisor) : Bool := s.table.isSome

/-- The counters of the cache. -/
def statistics (s : Supervisor) : Statistics := s.table.elim {} (·.statistics)

/-- The number of adepts. -/
def adeptCount (s : Supervisor) : Nat := s.statistics.adepts

/-- Whether an early sweep was asked for and has not been run. -/
def pending (s : Supervisor) : Bool := s.table.any (·.pending)

/-- Sweeps the cache, if there is one. -/
def sweep (s : Supervisor) (kind : SweepKind) (held : EntryId → Bool) (entries : Entries) :
    Option SweepReport × Supervisor × Entries :=
  match s.table with
  | none => (none, s, entries)
  | some t =>
    let r := t.sweep kind held entries
    (some r.1, { s with table := some r.2.1 }, r.2.2)

end Supervisor

end EntityQuery
