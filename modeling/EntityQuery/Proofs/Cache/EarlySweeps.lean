import EntityQuery.Proofs.Cache.Uses

/-!
# Early sweeps

A lookup that follows one computation too many asks for an early sweep, unless one is pending. What
is pending is a flag of its own, which the next sweep of either kind takes back. So it says how many
lookups have asked since the last sweep, and that is one at most (`TableState.requests_eq`).

What a lookup begins to follow has been used, by that lookup. Until the next sweep it stays what it
is, and its use is counted (`TableState.Used.after`). The next sweep therefore does not find it
idle, and leaves it, whoever holds it (`TableState.Used.lookup_sweep`).
-/

namespace EntityQuery

/-- Whether an event is a sweep. -/
def TableEvent.isSweep : TableEvent → Bool
  | sweep _ => true
  | lookup _ _ _ | observe _ _ | use _ | drop _ => false

/-- A lookup asks for an early sweep where it has begun to follow a computation, there are then too
many of them, and none has asked before. -/
theorem Table.schedule_lookup_iff (t : Table) (entries : Entries) (key : Digest)
    (kind : RecordKind) (snapshots : Digest) :
    (t.lookup entries key kind snapshots).schedule = true
      ↔ t.slots.lookup key = none
        ∧ t.options.anteroomLimit
          < (t.lookup entries key kind snapshots).table.statistics.adepts
        ∧ t.pending = false := by
  unfold lookup
  rcases hslot : t.slots.lookup key with - | slot
  · simp [classify, asksForSweep, insertAdept, countMiss]
  · simp

namespace TableState

/-- Whether an event is a lookup that asks for an early sweep. -/
def asks (s : TableState) : TableEvent → Bool
  | .lookup key kind snapshots => (s.table.lookup s.entries key kind snapshots).schedule
  | .observe _ _ | .use _ | .drop _ | .sweep _ => false

/-- How many lookups have asked for an early sweep since the last sweep. -/
def requests (options : CacheOptions) : List TableEvent → ℕ
  | [] => 0
  | event :: past =>
    if event.isSweep then 0 else requests options past + ((after options past).asks event).toNat

variable {options : CacheOptions} {past : List TableEvent} {s : TableState} {number : ℕ}
  {event : TableEvent} {key : Digest} {kind : RecordKind} {snapshots : Digest} {i : EntryId}

/-! ## Requests -/

/-- Nothing asks while a sweep is pending. -/
theorem asks_of_pending (h : s.table.pending = true) (event : TableEvent) :
    s.asks event = false := by
  cases event with
  | lookup key kind snapshots =>
    refine Bool.eq_false_iff.mpr fun hasks => ?_
    obtain ⟨-, -, hfree⟩ := (s.table.schedule_lookup_iff s.entries key kind snapshots).mp hasks
    exact absurd (h.symm.trans hfree) (by simp)
  | observe handle computed => rfl
  | use handle => rfl
  | drop handle => rfl
  | sweep kind => rfl

/-- A sweep is pending from when a lookup asks for it to when one is run. -/
theorem Consistent.pending_next (h : s.Consistent) (number : ℕ) (event : TableEvent) :
    (s.next number event).table.pending
      = (!event.isSweep && (s.table.pending || s.asks event)) := by
  have hsame : s.table.pending = (s.table.pending || false) := (Bool.or_false _).symm
  cases event with
  | lookup key kind snapshots =>
    have hlooks := Table.looksUp h.entry_lt key kind snapshots
    unfold TableState.next asks
    dsimp only
    generalize s.table.lookup s.entries key kind snapshots = c at hlooks ⊢
    cases hlooks with
    | inserted hslot schedule => rfl
    | followed hslot => exact hsame
    | awaited hslot he hpayload => exact hsame
    | found hslot he hpayload => exact hsame
    | outdated hslot he hpayload hne => exact hsame
  | observe handle computed => exact hsame
  | use handle => exact hsame
  | drop handle => exact hsame
  | sweep kind => rfl

/-- A sweep is pending where a lookup has asked for one, and no other has. -/
theorem requests_eq (options : CacheOptions) (past : List TableEvent) :
    requests options past = (after options past).table.pending.toNat := by
  induction past with
  | nil => rfl
  | cons event past ih =>
    rw [requests, ih, after, (after_consistent options past).pending_next]
    rcases event.isSweep with - | -
    · -- The first request is counted, and while it is pending there is no other.
      rcases hpending : (after options past).table.pending with - | -
      · simp
      · rw [asks_of_pending hpending]
        rfl
    · rfl

/-! ## What was used since the last sweep -/

/-- Whether the adept of a key was used since the last sweep. -/
structure Used (s : TableState) (key : Digest) (i : EntryId) : Prop where
  /-- The key has an adept. -/
  slot : s.slot? key = some (.adept i)
  /-- Its entry has counted a use. -/
  entry : ∃ e, s.entries[i]? = some e ∧ 0 < e.usage.sinceSweep

/-- What a lookup begins to follow was used. -/
theorem Consistent.used_inserted (h : s.Consistent) (hnew : s.slot? key = none) :
    (s.next number (.lookup key kind snapshots)).Used key s.entries.size := by
  refine ⟨?_, _, h.entry_inserted hnew, Nat.one_pos⟩
  rw [h.slot?_lookup, if_pos rfl, hnew, Option.getD_none]

/-- Without a sweep what has a slot keeps it. -/
theorem Consistent.slot?_of_not_sweep (h : s.Consistent) {slot : Slot}
    (hslot : s.slot? key = some slot) (number : ℕ) (hevent : event.isSweep = false) :
    (s.next number event).slot? key = some slot := by
  cases event with
  | lookup key' kind snapshots =>
    rw [h.slot?_lookup]
    split_ifs with hkey
    · rw [← hkey, hslot, Option.getD_some]
    · exact hslot
  | observe handle computed => exact hslot
  | use handle => exact hslot
  | drop handle => exact hslot
  | sweep kind => exact absurd hevent.symm Bool.false_ne_true

/-- Nothing but a sweep looks at uses. -/
theorem looksAt_of_not_sweep (hevent : event.isSweep = false) : s.looksAt key event = false := by
  cases event with
  | lookup key' kind snapshots => rfl
  | observe handle computed => rfl
  | use handle => rfl
  | drop handle => rfl
  | sweep kind => exact absurd hevent.symm Bool.false_ne_true

namespace Used

/-- Until the next sweep it stays used. -/
theorem next (hused : s.Used key i) (h : s.Consistent) (number : ℕ)
    (hevent : event.isSweep = false) : (s.next number event).Used key i := by
  obtain ⟨hslot, e, he, hpos⟩ := hused
  obtain ⟨e', he', -⟩ := h.entry_next hslot he number event
  refine ⟨h.slot?_of_not_sweep hslot number hevent, e', he', ?_⟩
  rw [h.usage_next hslot he he', looksAt_of_not_sweep hevent, if_neg Bool.false_ne_true]
  split_ifs
  · exact Nat.succ_pos _
  · exact hpos

/-- So it does over all events until then. -/
theorem after (hused : (after options past).Used key i) {recent : List TableEvent}
    (hrecent : ∀ event ∈ recent, event.isSweep = false) :
    (after options (recent ++ past)).Used key i := by
  induction recent with
  | nil => exact hused
  | cons event recent ih =>
    obtain ⟨hevent, hrest⟩ := List.forall_mem_cons.mp hrecent
    exact (ih hrest).next (after_consistent options (recent ++ past)) _ hevent

/-- A sweep does not discard it, whoever holds it. -/
theorem lookup_sweep (hused : s.Used key i) (h : s.Consistent) (kind : SweepKind)
    (held : EntryId → Bool) :
    let left := (s.table.sweep kind held s.entries).2.1.slots.lookup key
    left = some (.adept i) ∨ left = some (.cached i) := by
  intro left
  obtain ⟨hslot, e, he, hpos⟩ := hused
  -- The sweep finds a use, so it does not find it idle.
  have hbusy : s.table.isIdle e = false := by
    by_contra hidle
    exact hpos.ne' (Table.sinceSweep_eq_zero_of_isIdle (Bool.eq_true_of_not_eq_false hidle))
  have hfound : s.table.slots.lookup key = some (.adept i) := hslot
  have hleft : left
      = Table.applyVerdict (.adept i) (s.table.judge kind held s.entries (.adept i)) := by
    have hswept := Table.lookup_sweep h.nodup_keys kind held s.entries key
    rwa [hfound, Option.bind_some] at hswept
  rw [hleft, Table.judge_adept he, hbusy]
  split_ifs with hin hidle
  · exact .inr rfl
  · exact absurd hidle (by simp)
  · exact .inl rfl

end Used

/-- Requests for early sweeps come together and are not forgotten. Since the last sweep one lookup
at most has asked for an early one, and a sweep is pending if and only if one has. The lookup that
asks is the first one that has begun to follow a computation when there were too many of them then,
and after any such lookup a sweep is pending. What the lookup follows has been used once, by it, so
the next sweep of either kind does not discard it, whoever holds it then. -/
theorem early_sweep_requested (options : CacheOptions) (past : List TableEvent) :
    let s := after options past
    (requests options past ≤ 1 ∧ (s.table.pending = true ↔ requests options past = 1))
      ∧ ∀ key kind snapshots,
        let lookup := .lookup key kind snapshots
        let called := after options (lookup :: past)
        let crowded := options.anteroomLimit < called.table.statistics.adepts
        (s.asks lookup = true ↔ s.slot? key = none ∧ crowded ∧ s.table.pending = false)
          ∧ (s.slot? key = none →
            (crowded → called.table.pending = true)
              ∧ called.slot? key = some (.adept s.entries.size)
              ∧ called.entries[s.entries.size]?.map Entry.usage
                = some { times := 1, sinceSweep := 1 }
              ∧ ∀ recent, (∀ event ∈ recent, event.isSweep = false) → ∀ kind held,
                let later := after options (recent ++ lookup :: past)
                let left := (later.table.sweep kind held later.entries).2.1.slots.lookup key
                left = some (.adept s.entries.size) ∨ left = some (.cached s.entries.size)) := by
  intro s
  have h : s.Consistent := after_consistent options past
  have hrequests : requests options past = s.table.pending.toNat := requests_eq options past
  refine ⟨⟨?_, ?_⟩, fun key kind snapshots => ?_⟩
  · rw [hrequests]
    exact Bool.toNat_le _
  · rw [hrequests, Bool.toNat_eq_one]
  · intro lookup called crowded
    have hasks : s.asks lookup = true ↔ s.slot? key = none ∧ crowded ∧ s.table.pending = false := by
      have hschedule := s.table.schedule_lookup_iff s.entries key kind snapshots
      rwa [options_after] at hschedule
    refine ⟨hasks, fun hnew => ?_⟩
    have hused : called.Used key s.entries.size := h.used_inserted hnew
    refine ⟨fun hcrowded => ?_, hused.slot, ?_, fun recent hrecent kind held => ?_⟩
    · have hpending : called.table.pending = (s.table.pending || s.asks lookup) :=
        h.pending_next past.length lookup
      rw [hpending, Bool.or_eq_true, hasks]
      rcases s.table.pending with - | -
      · exact .inr ⟨hnew, hcrowded, rfl⟩
      · exact .inl rfl
    · have hentry : called.entries[s.entries.size]? = some ({ kind, key } : Entry).use :=
        h.entry_inserted hnew
      rw [hentry]
      rfl
    · exact (hused.after hrecent).lookup_sweep (after_consistent options _) kind held

/-- The second of three adepts asks for a sweep where one is the limit. Nobody holds it any more
when the sweep comes, which leaves it. -/
theorem early_sweep_requested_second :
    let options : CacheOptions := { anteroomLimit := 1 }
    let lookup (n : ℕ) : TableEvent := .lookup (.word n) .filter (.word 0)
    let past := [lookup 7]
    let recent := [.drop 1, lookup 9]
    let later := after options (recent ++ lookup 8 :: past)
    let left := (later.table.sweep .anteroom later.isHeld later.entries).2.1.slots.lookup (.word 8)
    (after options past).asks (lookup 7) = false ∧ (after options past).asks (lookup 8) = true
      ∧ later.isHeld 1 = false ∧ later.table.pending = true
      ∧ requests options (recent ++ lookup 8 :: past) = 1
      ∧ (left = some (.adept 1) ∨ left = some (.cached 1)) := by
  intro options lookup past recent later left
  obtain ⟨-, hlookups⟩ := early_sweep_requested options past
  obtain ⟨hasks, hinserted⟩ := hlookups (.word 8) .filter (.word 0)
  obtain ⟨-, -, -, hleft⟩ := hinserted (by cbv)
  obtain ⟨⟨-, hpending⟩, -⟩ := early_sweep_requested options (recent ++ lookup 8 :: past)
  have hpends : later.table.pending = true := by cbv
  refine ⟨by cbv, hasks.mpr ⟨by cbv, by cbv, by cbv⟩, by cbv, hpends, hpending.mp hpends, ?_⟩
  exact hleft recent (by decide) .anteroom later.isHeld

end TableState

end EntityQuery
