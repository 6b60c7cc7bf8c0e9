import EntityQuery.Proofs.Cache.Sweeping

/-!
# The course of a table

Computations are looked up, the handles that lookups give out are used to report and to count uses
until they are dropped, and sweeps come in between. A list of such events, the latest first, leads
to a state of the table (`TableState.after`). Handles go by the numbers of the lookups that gave
them out, so they outlive promotions and evictions of what they were given out for.

What one event changes is said once for the slot of a key and once for the entry of that slot.
What holds of the table at any time is `TableState.Consistent`: slots differ in their keys and in
their entries, adepts have no result, records are measured, and no handle to a record reaches an
adept (`TableState.after_consistent`).
-/

namespace EntityQuery

/-- Something that happens to a table or to a handle. -/
inductive TableEvent where
  /-- A computation is looked up. -/
  | lookup (key : Digest) (kind : RecordKind) (snapshots : Digest)
  /-- A computation is reported through a handle. -/
  | observe (handle : ℕ) (computed : Computed)
  /-- A use is counted through a handle. -/
  | use (handle : ℕ)
  /-- A handle is dropped. -/
  | drop (handle : ℕ)
  /-- The table is swept. -/
  | sweep (kind : SweepKind)

/-- The handle that comes with an answer. -/
def Lookup.handle? : Lookup → Option Observer
  | record e => some (.recording e)
  | adept e => some (.adept e)
  | hit _ | stale => none

/-- Whether the answer is that the record was computed from other snapshots. -/
def Lookup.isStale : Lookup → Bool
  | stale => true
  | hit _ | record _ | adept _ => false

/-- Whether a handle leads to a record. -/
def Observer.isRecording : Observer → Bool
  | adept _ => false
  | recording _ => true

/-- The entry that a handle leads to, after a report. -/
def Observer.told (o : Observer) (computed : Computed) (e : Entry) : Entry :=
  match o with
  | adept _ => e.measure computed.cost computed.size
  | recording _ => e.record computed.snapshots computed.payload

/-- A table with the entries and the handles that go with it. -/
structure TableState where
  table : Table
  entries : Entries := #[]
  /-- The handles that are held, by number. -/
  handles : List (ℕ × Observer) := []

namespace TableState

/-- The slot of a key. -/
def slot? (s : TableState) (key : Digest) : Option Slot := s.table.slots.lookup key

/-- The handle of a number, while it is held. -/
def handle? (s : TableState) (number : ℕ) : Option Observer := s.handles.lookup number

/-- Whether somebody else than the table holds an adept. -/
def isHeld (s : TableState) (i : EntryId) : Bool := s.handles.any (·.2 == .adept i)

/-- What the table says of a computation. -/
def answer (s : TableState) (key : Digest) (kind : RecordKind) (snapshots : Digest) : Lookup :=
  (s.table.lookup s.entries key kind snapshots).answer

/-- The state after one more event, which has some number. -/
def next (number : ℕ) (s : TableState) : TableEvent → TableState
  | .lookup key kind snapshots =>
    let c := s.table.lookup s.entries key kind snapshots
    { table := c.table
      entries := c.entries
      handles := (c.answer.handle?.map (number, ·)).toList ++ s.handles }
  | .observe handle computed =>
    { s with entries := (s.handle? handle).elim s.entries (·.report computed s.entries) }
  | .use handle =>
    { s with
      entries := (s.handle? handle).elim s.entries fun o => s.entries.modify o.entry Entry.use }
  | .drop handle => { s with handles := s.handles.filter (·.1 != handle) }
  | .sweep kind =>
    let r := s.table.sweep kind s.isHeld s.entries
    { s with table := r.2.1, entries := r.2.2 }

/-- The state of a table that was made with some options, after a list of events. The latest event
comes first. -/
def after (options : CacheOptions) : List TableEvent → TableState
  | [] => { table := { options } }
  | event :: past => (after options past).next past.length event

/-- Whether an event counts as a use of what has the slot of a key: as a lookup that is not stale,
or through a handle. -/
def countsUse (s : TableState) (key : Digest) : TableEvent → Bool
  | .lookup key' kind snapshots => key' = key && !(s.answer key' kind snapshots).isStale
  | .use handle => (s.handle? handle).any fun o => (s.slot? key).any (·.entry == o.entry)
  | .observe _ _ | .drop _ | .sweep _ => false

end TableState

/-! ## Lookups -/

/-- What can come of a lookup, in a table whose slots have entries. -/
inductive Table.LooksUp (t : Table) (entries : Entries) (key : Digest) (kind : RecordKind)
    (snapshots : Digest) : Consultation → Prop
  /-- The computation is new. -/
  | inserted (hslot : t.slots.lookup key = none) (schedule : Bool) :
    LooksUp t entries key kind snapshots
      { answer := .adept entries.size
        schedule
        table := { (t.insertAdept key entries.size).countMiss with
          pending := t.pending || schedule }
        entries := (entries.push { kind, key }).modify entries.size Entry.use }
  /-- The computation is followed. -/
  | followed {i : EntryId} (hslot : t.slots.lookup key = some (.adept i)) :
    LooksUp t entries key kind snapshots
      { answer := .adept i, schedule := false, table := t.countMiss
        entries := entries.modify i Entry.use }
  /-- The record has no result. -/
  | awaited {i : EntryId} {e : Entry} (hslot : t.slots.lookup key = some (.cached i))
    (he : entries[i]? = some e) (hpayload : e.payload = none) :
    LooksUp t entries key kind snapshots
      { answer := .record i, schedule := false, table := t.countMiss
        entries := entries.modify i Entry.use }
  /-- The record has a result for the snapshots. -/
  | found {i : EntryId} {e : Entry} {payload : Payload}
    (hslot : t.slots.lookup key = some (.cached i)) (he : entries[i]? = some e)
    (hpayload : e.payload = some (snapshots, payload)) :
    LooksUp t entries key kind snapshots
      { answer := .hit payload, schedule := false, table := t.countHit
        entries := entries.modify i Entry.use }
  /-- The record has a result for other snapshots. -/
  | outdated {i : EntryId} {e : Entry} {recorded : Digest} {payload : Payload}
    (hslot : t.slots.lookup key = some (.cached i)) (he : entries[i]? = some e)
    (hpayload : e.payload = some (recorded, payload)) (hne : recorded ≠ snapshots) :
    LooksUp t entries key kind snapshots
      { answer := .stale, schedule := false, table := t.countMiss, entries }

/-- A slot that is found under a key is one of the slots. -/
theorem Table.mem_of_lookup_eq_some {t : Table} {key : Digest} {slot : Slot}
    (h : t.slots.lookup key = some slot) : (key, slot) ∈ t.slots := by
  obtain ⟨before, rest, hslots, -⟩ := List.lookup_eq_some_iff.1 h
  rw [hslots]
  exact List.mem_append_right _ List.mem_cons_self

/-- What a lookup does. -/
theorem Table.looksUp {t : Table} {entries : Entries}
    (hentries : ∀ s ∈ t.slots, s.2.entry < entries.size) (key : Digest) (kind : RecordKind)
    (snapshots : Digest) :
    t.LooksUp entries key kind snapshots (t.lookup entries key kind snapshots) := by
  unfold lookup
  rcases hslot : t.slots.lookup key with - | slot
  · exact .inserted hslot _
  · rcases slot with i | i
    · exact .followed hslot
    · have hi : i < entries.size := hentries _ (mem_of_lookup_eq_some hslot)
      have he : entries[i]? = some entries[i] := Array.getElem?_eq_getElem hi
      rcases hpayload : entries[i].payload with - | ⟨recorded, payload⟩
      · have hawaited : t.LooksUp entries key kind snapshots _ := .awaited hslot he hpayload
        simpa [classify, he, Entry.payloadFor, hpayload] using hawaited
      · by_cases hsame : recorded = snapshots
        · subst hsame
          have hfound : t.LooksUp entries key kind recorded _ := .found hslot he hpayload
          simpa [classify, he, Entry.payloadFor, hpayload] using hfound
        · have houtdated : t.LooksUp entries key kind snapshots _ :=
            .outdated hslot he hpayload hsame
          simpa [classify, he, Entry.payloadFor, hpayload, hsame] using houtdated

/-- A report is told to the entry of the handle. -/
theorem Observer.report_eq (o : Observer) (computed : Computed) (entries : Entries) :
    o.report computed entries = entries.modify o.entry (o.told computed) := by
  cases o <;> rfl

/-! ## What holds at any time -/

/-- Whether an entry may have a slot: adepts have no result, and records are measured. -/
def Slot.Suits : Slot → Entry → Prop
  | adept _, e => e.payload = none
  | cached _, e => e.metrics.isSome

namespace Slot.Suits

variable {slot : Slot} {e : Entry}

/-- A use changes nothing. -/
theorem use (h : slot.Suits e) : slot.Suits e.use := by
  cases slot <;> exact h

/-- Nor does a sweep. -/
theorem sweep (h : slot.Suits e) : slot.Suits e.sweep := by
  cases slot <;> exact h

/-- Measuring changes nothing, and a result may be left where the slot is that of a record. -/
theorem told (h : slot.Suits e) {o : Observer}
    (hrecording : o.isRecording = true → slot.isAdept = false) (computed : Computed) :
    slot.Suits (o.told computed e) := by
  rcases o with j | j
  · rcases slot with i | i
    · exact h
    · exact Option.isSome_or.trans (by rw [Bool.or_eq_true]; exact .inl h)
  · rcases slot with i | i
    · exact absurd (hrecording rfl) (by simp)
    · exact h

end Slot.Suits

namespace TableState

/-- What holds of a table at any time. -/
structure Consistent (s : TableState) : Prop where
  /-- Slots have different keys. -/
  nodup_keys : (s.table.slots.map Prod.fst).Nodup
  /-- Slots have different entries. -/
  nodup_entries : (s.table.slots.map (·.2.entry)).Nodup
  /-- Slots have entries that suit them. -/
  suits : ∀ p ∈ s.table.slots, ∃ e, s.entries[p.2.entry]? = some e ∧ p.2.Suits e
  /-- Handles lead to entries. -/
  handle_lt : ∀ p ∈ s.handles, p.2.entry < s.entries.size
  /-- A handle to a record does not lead to an adept. -/
  recording : ∀ p ∈ s.handles, p.2.isRecording = true → ∀ key,
    (key, .adept p.2.entry) ∉ s.table.slots

variable {s : TableState} {number handle : ℕ} {computed : Computed} {o : Observer}

/-- A report through a handle. -/
theorem next_observe (h : s.handle? handle = some o) :
    s.next number (.observe handle computed)
      = { s with entries := s.entries.modify o.entry (o.told computed) } := by
  rw [next, h, Option.elim_some, Observer.report_eq]

/-- Nothing is reported through a handle that is not held. -/
theorem next_observe_of_none (h : s.handle? handle = none) :
    s.next number (.observe handle computed) = s := by
  rw [next, h, Option.elim_none]

/-- A use that is counted through a handle. -/
theorem next_use (h : s.handle? handle = some o) :
    s.next number (.use handle) = { s with entries := s.entries.modify o.entry Entry.use } := by
  rw [next, h, Option.elim_some]

/-- Nothing is counted through a handle that is not held. -/
theorem next_use_of_none (h : s.handle? handle = none) : s.next number (.use handle) = s := by
  rw [next, h, Option.elim_none]

/-- A handle that is found is one of those that are held. -/
theorem mem_of_handle?_eq_some (h : s.handle? handle = some o) : (handle, o) ∈ s.handles := by
  obtain ⟨before, rest, hhandles, -⟩ := List.lookup_eq_some_iff.1 h
  rw [hhandles]
  exact List.mem_append_right _ List.mem_cons_self

namespace Consistent

/-- Slots lead to entries. -/
theorem entry_lt (h : s.Consistent) : ∀ p ∈ s.table.slots, p.2.entry < s.entries.size := by
  intro p hp
  obtain ⟨e, he, -⟩ := h.suits p hp
  exact (Array.getElem?_eq_some_iff.1 he).1

/-- The slots of a table are those that are found under a key. -/
theorem slot?_eq_some_iff (h : s.Consistent) {key : Digest} {slot : Slot} :
    s.slot? key = some slot ↔ (key, slot) ∈ s.table.slots := by
  refine ⟨Table.mem_of_lookup_eq_some, fun hmem => ?_⟩
  obtain ⟨before, rest, hslots⟩ := List.append_of_mem hmem
  refine List.lookup_eq_some_iff.2 ⟨before, rest, hslots, fun p hp => ?_⟩
  have hnodup := h.nodup_keys
  rw [hslots, List.map_append, List.map_cons, List.nodup_append] at hnodup
  have hne : p.1 ≠ key := hnodup.2.2 _ (List.mem_map.2 ⟨p, hp, rfl⟩) _ List.mem_cons_self
  simpa using hne.symm

/-- The slot of a key has an entry that suits it. -/
theorem exists_entry (h : s.Consistent) {key : Digest} {slot : Slot}
    (hslot : s.slot? key = some slot) : ∃ e, s.entries[slot.entry]? = some e ∧ slot.Suits e :=
  h.suits _ (h.slot?_eq_some_iff.1 hslot)

/-- Keys with the same entry are the same. -/
theorem key_eq (h : s.Consistent) {key key' : Digest} {slot slot' : Slot}
    (hslot : s.slot? key = some slot) (hslot' : s.slot? key' = some slot')
    (hentry : slot.entry = slot'.entry) : key = key' := by
  have heq := List.inj_on_of_nodup_map h.nodup_entries (h.slot?_eq_some_iff.1 hslot)
    (h.slot?_eq_some_iff.1 hslot') hentry
  exact congrArg Prod.fst heq

/-- A table stays consistent where the slots stay, the entries go on to suit them, and no handles
are added. -/
theorem of_slots (h : s.Consistent) {s' : TableState}
    (hslots : s'.table.slots = s.table.slots) (hsize : s.entries.size ≤ s'.entries.size)
    (hhandles : ∀ p ∈ s'.handles, p ∈ s.handles)
    (hsuits : ∀ p ∈ s.table.slots, ∀ e, s.entries[p.2.entry]? = some e → p.2.Suits e →
      ∃ e', s'.entries[p.2.entry]? = some e' ∧ p.2.Suits e') : s'.Consistent where
  nodup_keys := hslots ▸ h.nodup_keys
  nodup_entries := hslots ▸ h.nodup_entries
  suits := by
    intro p hp
    rw [hslots] at hp
    obtain ⟨e, he, hsuit⟩ := h.suits p hp
    exact hsuits p hp e he hsuit
  handle_lt := fun p hp => Nat.lt_of_lt_of_le (h.handle_lt p (hhandles p hp)) hsize
  recording := by
    intro p hp hrecording key
    rw [hslots]
    exact h.recording p (hhandles p hp) hrecording key

/-- A handle is given out for a slot. -/
theorem withHandle (h : s.Consistent) (number : ℕ) {key : Digest} {slot : Slot} {o : Observer}
    (hslot : (key, slot) ∈ s.table.slots) (hentry : o.entry = slot.entry)
    (hrecording : o.isRecording = true → slot.isAdept = false) :
    Consistent { s with handles := (number, o) :: s.handles } where
  nodup_keys := h.nodup_keys
  nodup_entries := h.nodup_entries
  suits := h.suits
  handle_lt := by
    intro p hp
    rcases List.mem_cons.1 hp with rfl | hp
    · exact hentry ▸ h.entry_lt _ hslot
    · exact h.handle_lt p hp
  recording := by
    intro p hp
    rcases List.mem_cons.1 hp with rfl | hp
    · intro ho key' hmem
      -- The slot with this entry is the one that the handle is for.
      have heq := List.inj_on_of_nodup_map h.nodup_entries hmem hslot hentry
      have hadept : slot = .adept o.entry := (Prod.mk.inj heq).2.symm
      rw [hadept] at hrecording
      exact absurd (hrecording ho) (by simp)
    · exact h.recording p hp

/-- A use is counted. -/
theorem use (h : s.Consistent) (i : EntryId) (table : Table)
    (hslots : table.slots = s.table.slots) :
    Consistent { s with table, entries := s.entries.modify i Entry.use } := by
  refine h.of_slots hslots (by simp) (fun _ hp => hp) fun p _ e he hsuit => ?_
  show ∃ e', (s.entries.modify i Entry.use)[p.2.entry]? = some e' ∧ _
  rw [Array.getElem?_modify, he]
  split_ifs
  · exact ⟨_, rfl, hsuit.use⟩
  · exact ⟨_, rfl, hsuit⟩

/-- A new computation is followed. -/
theorem insertAdept (h : s.Consistent) {key : Digest} (hnew : s.slot? key = none)
    (kind : RecordKind) :
    Consistent { s with
      table := s.table.insertAdept key s.entries.size
      entries := s.entries.push { kind, key } } where
  nodup_keys := by
    refine List.nodup_cons.2 ⟨fun hmem => ?_, h.nodup_keys⟩
    obtain ⟨p, hp, hkey⟩ := List.mem_map.1 hmem
    have hkey : key = p.1 := hkey.symm
    have hne := List.lookup_eq_none_iff.1 hnew p hp
    simp [hkey] at hne
  nodup_entries := by
    refine List.nodup_cons.2 ⟨fun hmem => ?_, h.nodup_entries⟩
    obtain ⟨p, hp, hentry⟩ := List.mem_map.1 hmem
    exact absurd hentry (Nat.ne_of_lt (h.entry_lt p hp))
  suits := by
    intro p hp
    rcases List.mem_cons.1 hp with rfl | hp
    · exact ⟨_, Array.getElem?_push_size, rfl⟩
    · obtain ⟨e, he, hsuit⟩ := h.suits p hp
      have hne : p.2.entry ≠ s.entries.size := Nat.ne_of_lt (h.entry_lt p hp)
      exact ⟨e, by rw [Array.getElem?_push, if_neg hne, he], hsuit⟩
  handle_lt := by
    intro p hp
    rw [Array.size_push]
    exact Nat.lt_succ_of_lt (h.handle_lt p hp)
  recording := by
    intro p hp hrecording key' hmem
    rcases List.mem_cons.1 hmem with heq | hmem
    · -- The entry of the new slot is one that no handle leads to.
      have hentry : p.2.entry = s.entries.size := Slot.adept.inj (Prod.mk.inj heq).2
      exact absurd hentry (Nat.ne_of_lt (h.handle_lt p hp))
    · exact h.recording p hp hrecording key' hmem

/-- A sweep keeps a table consistent. -/
theorem sweep (h : s.Consistent) (kind : SweepKind) (held : EntryId → Bool) :
    Consistent { s with
      table := (s.table.sweep kind held s.entries).2.1
      entries := s.table.resetEntries kind s.entries } := by
  -- A slot that is left has the entry that it had, and is that of an adept only if it was before.
  have hleft {p : Digest × Slot} (hp : p ∈ (s.table.sweep kind held s.entries).2.1.slots) :
      ∃ q ∈ s.table.slots, q.1 = p.1
        ∧ Table.applyVerdict q.2 (s.table.judge kind held s.entries q.2) = some p.2 := by
    rw [Table.slots_sweep] at hp
    obtain ⟨q, hq, hleft⟩ := List.mem_filterMap.1 hp
    obtain ⟨slot, hverdict, rfl⟩ := Option.map_eq_some_iff.1 hleft
    exact ⟨q, hq, rfl, hverdict⟩
  constructor
  · exact h.nodup_keys.sublist (s.table.keys_sweep_sublist kind held s.entries)
  · exact h.nodup_entries.sublist (s.table.entries_sweep_sublist kind held s.entries)
  · rintro ⟨key, slot⟩ hp
    obtain ⟨q, hq, -, hverdict⟩ := hleft hp
    rcases slot with i | i
    · -- An adept that is left had no result before.
      have hadept : q.2 = .adept i := Table.eq_adept_of_applyVerdict hverdict
      obtain ⟨e, he, hsuit⟩ := h.suits q hq
      have hreset := Table.getElem?_resetEntries_of_mem h.nodup_entries kind s.entries hq
      rw [he, hadept] at hreset
      rw [hadept] at hsuit
      exact ⟨e.sweep, hreset, hsuit.sweep⟩
    · -- A record that is left was let in, so it was measured.
      obtain ⟨-, hin⟩ :=
        (Table.applyVerdict_judge_eq_cached h.nodup_entries h.entry_lt hq i).1 hverdict
      obtain ⟨q', hq', c, hc, hentry⟩ := Table.exists_candidate_of_mem_admission hin
      obtain ⟨-, e, m, he, hm, -⟩ := Table.candidate?_eq_some hc
      have hsome : e.metrics.isSome := by rw [hm]; rfl
      have hreset := Table.getElem?_resetEntries_of_mem h.nodup_entries kind s.entries hq'
      rw [he, hentry, Option.map_some] at hreset
      refine ⟨_, hreset, ?_⟩
      split_ifs
      · exact hsome
      · exact hsome
  · intro p hp
    exact Nat.lt_of_lt_of_eq (h.handle_lt p hp) (s.table.size_resetEntries kind s.entries).symm
  · intro p hp hrecording key hmem
    obtain ⟨q, hq, -, hverdict⟩ := hleft hmem
    have hadept : q.2 = .adept p.2.entry := Table.eq_adept_of_applyVerdict hverdict
    exact h.recording p hp hrecording q.1 (hadept ▸ hq)

/-- An empty table is consistent. -/
theorem start (options : CacheOptions) : Consistent { table := { options } } where
  nodup_keys := List.nodup_nil
  nodup_entries := List.nodup_nil
  suits := fun _ hp => absurd hp List.not_mem_nil
  handle_lt := fun _ hp => absurd hp List.not_mem_nil
  recording := fun _ hp => absurd hp List.not_mem_nil

/-- A lookup keeps a table consistent, with the handle that it gives out. -/
theorem lookup (h : s.Consistent) (number : ℕ) (key : Digest) (kind : RecordKind)
    (snapshots : Digest) : (s.next number (.lookup key kind snapshots)).Consistent := by
  have hlooks := Table.looksUp h.entry_lt key kind snapshots
  unfold TableState.next
  dsimp only
  generalize s.table.lookup s.entries key kind snapshots = c at hlooks ⊢
  cases hlooks with
  | inserted hslot schedule =>
    have hinserted := (h.insertAdept hslot kind).use s.entries.size
      { (s.table.insertAdept key s.entries.size).countMiss with
        pending := s.table.pending || schedule } rfl
    exact hinserted.withHandle number List.mem_cons_self rfl fun ho => absurd ho Bool.false_ne_true
  | followed hslot =>
    exact (h.use _ s.table.countMiss rfl).withHandle number (Table.mem_of_lookup_eq_some hslot) rfl
      fun ho => absurd ho Bool.false_ne_true
  | awaited hslot he hpayload =>
    exact (h.use _ s.table.countMiss rfl).withHandle number (Table.mem_of_lookup_eq_some hslot) rfl
      fun _ => rfl
  | found hslot he hpayload => exact h.use _ s.table.countHit rfl
  | outdated hslot he hpayload hne =>
    exact h.of_slots rfl (Nat.le_refl _) (fun _ hp => hp) fun p _ e he hsuit => ⟨e, he, hsuit⟩

/-- A report keeps a table consistent. -/
theorem observe (h : s.Consistent) (number handle : ℕ) (computed : Computed) :
    (s.next number (.observe handle computed)).Consistent := by
  rcases ho : s.handle? handle with - | o
  · rw [next_observe_of_none ho]
    exact h
  · rw [next_observe ho]
    have hmem : (handle, o) ∈ s.handles := mem_of_handle?_eq_some ho
    refine h.of_slots rfl (by simp) (fun _ hp => hp) fun p hp e he hsuit => ?_
    show ∃ e', (s.entries.modify o.entry (o.told computed))[p.2.entry]? = some e' ∧ _
    rw [Array.getElem?_modify, he]
    split_ifs with hentry
    · refine ⟨_, rfl, hsuit.told (fun hrecording => ?_) computed⟩
      -- A handle to a record does not lead to the entry of an adept.
      obtain ⟨key, slot⟩ := p
      rcases slot with i | i
      · obtain rfl : o.entry = i := hentry
        exact absurd hp (h.recording _ hmem hrecording key)
      · rfl
    · exact ⟨_, rfl, hsuit⟩

/-- Whatever happens keeps a table consistent. -/
theorem next (h : s.Consistent) (number : ℕ) (event : TableEvent) :
    (s.next number event).Consistent := by
  cases event with
  | lookup key kind snapshots => exact h.lookup number key kind snapshots
  | observe handle computed => exact h.observe number handle computed
  | use handle =>
    rcases ho : s.handle? handle with - | o
    · rw [next_use_of_none ho]
      exact h
    · rw [next_use ho]
      exact h.use o.entry s.table rfl
  | drop handle =>
    exact h.of_slots rfl (Nat.le_refl _) (fun _ hp => List.mem_of_mem_filter hp)
      fun p _ e he hsuit => ⟨e, he, hsuit⟩
  | sweep kind => exact h.sweep kind s.isHeld

end Consistent

/-- A table is consistent at any time. -/
theorem after_consistent (options : CacheOptions) (past : List TableEvent) :
    (after options past).Consistent := by
  induction past with
  | nil => exact .start options
  | cons event past ih => exact ih.next past.length event

/-! ## What one event changes -/

variable {key key' : Digest} {kind : RecordKind} {snapshots : Digest} {slot : Slot} {e : Entry}

/-- A lookup counts as a use unless it is stale. -/
theorem countsUse_lookup : s.countsUse key' (.lookup key kind snapshots)
    = (decide (key = key') && !(s.answer key kind snapshots).isStale) := rfl

/-- A handle is used for what it leads to. -/
theorem countsUse_use : s.countsUse key (.use handle)
    = (s.handle? handle).any fun o => (s.slot? key).any (·.entry == o.entry) := rfl

/-- A lookup begins to follow a computation that is new, and leaves the other slots alone. -/
theorem Consistent.slot?_lookup (h : s.Consistent) :
    (s.next number (.lookup key kind snapshots)).slot? key'
      = if key' = key then some ((s.slot? key).getD (.adept s.entries.size)) else s.slot? key' := by
  have hlooks := Table.looksUp h.entry_lt key kind snapshots
  unfold TableState.next slot?
  dsimp only
  generalize s.table.lookup s.entries key kind snapshots = c at hlooks ⊢
  -- Only a new computation changes the slots.
  have hsame {found : Slot} (hslot : s.table.slots.lookup key = some found) :
      s.table.slots.lookup key' = if key' = key
        then some ((s.table.slots.lookup key).getD (.adept s.entries.size))
        else s.table.slots.lookup key' := by
    split_ifs with hkey
    · rw [hkey, hslot, Option.getD_some]
    · rfl
  cases hlooks with
  | inserted hslot schedule =>
    show ((key, Slot.adept s.entries.size) :: s.table.slots).lookup key' = _
    rw [List.lookup_cons, hslot, Option.getD_none]
    by_cases hkey : key' = key
    · simp [hkey]
    · rw [if_neg hkey, beq_false_of_ne hkey]
  | followed hslot => exact hsame hslot
  | awaited hslot he hpayload => exact hsame hslot
  | found hslot he hpayload => exact hsame hslot
  | outdated hslot he hpayload hne => exact hsame hslot

/-- After a sweep a key has the slot that the verdict leaves it. -/
theorem Consistent.slot?_sweep (h : s.Consistent) (kind : SweepKind) :
    (s.next number (.sweep kind)).slot? key
      = (s.slot? key).bind fun slot =>
        Table.applyVerdict slot (s.table.judge kind s.isHeld s.entries slot) :=
  Table.lookup_sweep h.nodup_keys kind s.isHeld s.entries key

/-- The handle that a lookup gives out leads to what has the slot of the key then. -/
theorem Consistent.handle_lookup (h : s.Consistent) (number : ℕ) {o : Observer}
    (ho : (s.answer key kind snapshots).handle? = some o) :
    ∃ slot, (s.next number (.lookup key kind snapshots)).slot? key = some slot
      ∧ o.entry = slot.entry ∧ o.isRecording = !slot.isAdept := by
  have hlooks := Table.looksUp h.entry_lt key kind snapshots
  rw [h.slot?_lookup, if_pos rfl]
  unfold answer at ho
  unfold slot?
  generalize s.table.lookup s.entries key kind snapshots = c at hlooks ho
  cases hlooks with
  | inserted hslot schedule =>
    obtain rfl := Option.some.inj ho
    exact ⟨_, by rw [hslot, Option.getD_none], rfl, rfl⟩
  | followed hslot =>
    obtain rfl := Option.some.inj ho
    exact ⟨_, by rw [hslot, Option.getD_some], rfl, rfl⟩
  | awaited hslot he hpayload =>
    obtain rfl := Option.some.inj ho
    exact ⟨_, by rw [hslot, Option.getD_some], rfl, rfl⟩
  | found hslot he hpayload => exact absurd ho (Option.some_ne_none o).symm
  | outdated hslot he hpayload hne => exact absurd ho (Option.some_ne_none o).symm

/-- A lookup begins the entry of a computation that is new with one use. -/
theorem Consistent.entry_inserted (h : s.Consistent) (hnew : s.slot? key = none) :
    (s.next number (.lookup key kind snapshots)).entries[s.entries.size]?
      = some ({ kind, key } : Entry).use := by
  have hlooks := Table.looksUp h.entry_lt key kind snapshots
  unfold TableState.next
  dsimp only
  unfold slot? at hnew
  generalize s.table.lookup s.entries key kind snapshots = c at hlooks ⊢
  cases hlooks with
  | inserted hslot schedule =>
    rw [Array.getElem?_modify, if_pos rfl, Array.getElem?_push_size]
    rfl
  | followed hslot => exact absurd (hslot.symm.trans hnew) (Option.some_ne_none _)
  | awaited hslot he hpayload => exact absurd (hslot.symm.trans hnew) (Option.some_ne_none _)
  | found hslot he hpayload => exact absurd (hslot.symm.trans hnew) (Option.some_ne_none _)
  | outdated hslot he hpayload hne => exact absurd (hslot.symm.trans hnew) (Option.some_ne_none _)

/-- A lookup of a computation that is new counts as a use of it. -/
theorem Consistent.countsUse_inserted (h : s.Consistent) (hnew : s.slot? key = none) :
    s.countsUse key (.lookup key kind snapshots) = true := by
  have hlooks := Table.looksUp h.entry_lt key kind snapshots
  rw [countsUse_lookup]
  unfold answer
  unfold slot? at hnew
  generalize s.table.lookup s.entries key kind snapshots = c at hlooks ⊢
  cases hlooks with
  | inserted hslot schedule => simp [Lookup.isStale]
  | followed hslot => exact absurd (hslot.symm.trans hnew) (Option.some_ne_none _)
  | awaited hslot he hpayload => exact absurd (hslot.symm.trans hnew) (Option.some_ne_none _)
  | found hslot he hpayload => exact absurd (hslot.symm.trans hnew) (Option.some_ne_none _)
  | outdated hslot he hpayload hne => exact absurd (hslot.symm.trans hnew) (Option.some_ne_none _)

/-- A lookup changes an entry with a slot only by counting a use. -/
theorem Consistent.entry_lookup (h : s.Consistent) (hslot : s.slot? key' = some slot)
    (he : s.entries[slot.entry]? = some e) :
    (s.next number (.lookup key kind snapshots)).entries[slot.entry]?
      = some (if s.countsUse key' (.lookup key kind snapshots) = true then e.use else e) := by
  have hlooks := Table.looksUp h.entry_lt key kind snapshots
  rw [countsUse_lookup]
  unfold TableState.next answer
  dsimp only
  generalize s.table.lookup s.entries key kind snapshots = c at hlooks ⊢
  -- The entry that is used is that of the key that is looked up, and no other.
  have hused {found : Slot} (hfound : s.slot? key = some found) :
      (s.entries.modify found.entry Entry.use)[slot.entry]?
        = some (if key = key' then e.use else e) := by
    rw [Array.getElem?_modify, he]
    by_cases hkey : key = key'
    · subst hkey
      obtain rfl := Option.some.inj (hfound.symm.trans hslot)
      rw [if_pos rfl, if_pos rfl]
      rfl
    · have hne : found.entry ≠ slot.entry := fun hentry => hkey (h.key_eq hfound hslot hentry)
      rw [if_neg hne, if_neg hkey]
  cases hlooks with
  | inserted hnew schedule =>
    have hkey : key ≠ key' := by
      rintro rfl
      exact absurd (hslot.symm.trans hnew) (Option.some_ne_none _)
    have hlt : slot.entry < s.entries.size := (Array.getElem?_eq_some_iff.1 he).1
    rw [Array.getElem?_modify, if_neg (Nat.ne_of_gt hlt), Array.getElem?_push,
      if_neg (Nat.ne_of_lt hlt), he]
    simp [hkey]
  | followed hfound => simpa [Lookup.isStale, Slot.entry] using hused hfound
  | awaited hfound he' hpayload => simpa [Lookup.isStale, Slot.entry] using hused hfound
  | found hfound he' hpayload => simpa [Lookup.isStale, Slot.entry] using hused hfound
  | outdated hfound he' hpayload hne => simpa [Lookup.isStale] using he

/-- A use that is counted through a handle changes nothing else in an entry with a slot. -/
theorem entry_use (hslot : s.slot? key = some slot) (he : s.entries[slot.entry]? = some e) :
    (s.next number (.use handle)).entries[slot.entry]?
      = some (if s.countsUse key (.use handle) = true then e.use else e) := by
  rw [countsUse_use]
  rcases ho : s.handle? handle with - | o
  · rw [next_use_of_none ho, he]
    simp
  · rw [next_use ho, Array.getElem?_modify, he, hslot]
    by_cases hentry : o.entry = slot.entry
    · simp [hentry]
    · simp [hentry, Ne.symm hentry]

/-- A report changes an entry with a slot only where the handle leads to it. -/
theorem entry_observe (he : s.entries[slot.entry]? = some e) :
    (s.next number (.observe handle computed)).entries[slot.entry]?
      = some ((s.handle? handle).elim e fun o =>
        if o.entry = slot.entry then o.told computed e else e) := by
  rcases ho : s.handle? handle with - | o
  · rw [next_observe_of_none ho, he]
    rfl
  · rw [next_observe ho, Array.getElem?_modify, he, Option.elim_some]
    split_ifs <;> rfl

/-- A sweep resets the counters of an entry with a slot where it looks at the slot. -/
theorem Consistent.entry_sweep (h : s.Consistent) (hslot : s.slot? key = some slot)
    (he : s.entries[slot.entry]? = some e) (kind : SweepKind) :
    (s.next number (.sweep kind)).entries[slot.entry]?
      = some (if Table.resetsUsage kind slot = true then e.sweep else e) := by
  have hreset := Table.getElem?_resetEntries_of_mem h.nodup_entries kind s.entries
    (h.slot?_eq_some_iff.1 hslot)
  rw [he] at hreset
  exact hreset

/-- An entry with a slot stays as it is, or is used, or swept, or told of a report. -/
theorem Consistent.entry_next (h : s.Consistent) (hslot : s.slot? key = some slot)
    (he : s.entries[slot.entry]? = some e) (number : ℕ) (event : TableEvent) :
    ∃ e', (s.next number event).entries[slot.entry]? = some e'
      ∧ (e' = e ∨ e' = e.use ∨ e' = e.sweep ∨ ∃ o computed, e' = Observer.told o computed e) := by
  cases event with
  | lookup key' kind snapshots =>
    refine ⟨_, h.entry_lookup hslot he, ?_⟩
    split_ifs
    · exact .inr (.inl rfl)
    · exact .inl rfl
  | observe handle computed =>
    refine ⟨_, entry_observe he, ?_⟩
    rcases s.handle? handle with - | o
    · exact .inl rfl
    · rw [Option.elim_some]
      split_ifs
      · exact .inr (.inr (.inr ⟨o, computed, rfl⟩))
      · exact .inl rfl
  | use handle =>
    refine ⟨_, entry_use hslot he, ?_⟩
    split_ifs
    · exact .inr (.inl rfl)
    · exact .inl rfl
  | drop handle => exact ⟨e, he, .inl rfl⟩
  | sweep kind =>
    refine ⟨_, h.entry_sweep hslot he kind, ?_⟩
    split_ifs
    · exact .inr (.inr (.inl rfl))
    · exact .inl rfl

/-- What has a slot is new, or had it before, or was promoted by a sweep. -/
theorem Consistent.slot_next (h : s.Consistent) {event : TableEvent}
    (hslot : (s.next number event).slot? key = some slot) :
    (s.slot? key = none ∧ slot = .adept s.entries.size
        ∧ ∃ kind snapshots, event = .lookup key kind snapshots)
      ∨ s.slot? key = some slot
      ∨ ∃ i, s.slot? key = some (.adept i) ∧ slot = .cached i ∧ ∃ kind, event = .sweep kind := by
  cases event with
  | lookup key' kind snapshots =>
    rw [h.slot?_lookup] at hslot
    split_ifs at hslot with hkey
    · subst hkey
      rcases hbefore : s.slot? key with - | found
      · rw [hbefore, Option.getD_none] at hslot
        exact .inl ⟨rfl, (Option.some.inj hslot).symm, kind, snapshots, rfl⟩
      · rw [hbefore, Option.getD_some] at hslot
        exact .inr (.inl hslot)
    · exact .inr (.inl hslot)
  | observe handle computed => exact .inr (.inl hslot)
  | use handle => exact .inr (.inl hslot)
  | drop handle => exact .inr (.inl hslot)
  | sweep kind =>
    rw [h.slot?_sweep] at hslot
    obtain ⟨before, hbefore, hverdict⟩ := Option.bind_eq_some_iff.1 hslot
    have hentry := Table.entry_applyVerdict hverdict
    rcases slot with i | i
    · rw [Table.eq_adept_of_applyVerdict hverdict] at hbefore
      exact .inr (.inl hbefore)
    · rcases before with j | j
      · obtain rfl : i = j := hentry
        exact .inr (.inr ⟨i, hbefore, rfl, kind, rfl⟩)
      · obtain rfl : i = j := hentry
        exact .inr (.inl hbefore)

/-- A handle is held already, or is given out by a lookup. -/
theorem mem_handles_next {event : TableEvent} {p : ℕ × Observer}
    (hp : p ∈ (s.next number event).handles) :
    p ∈ s.handles ∨ ∃ key kind snapshots, event = .lookup key kind snapshots ∧ p.1 = number
      ∧ (s.answer key kind snapshots).handle? = some p.2 := by
  cases event with
  | lookup key kind snapshots =>
    rcases List.mem_append.1 hp with hnew | hold
    · rw [Option.mem_toList] at hnew
      obtain ⟨o, ho, rfl⟩ := Option.map_eq_some_iff.1 hnew
      exact .inr ⟨key, kind, snapshots, rfl, rfl, ho⟩
    · exact .inl hold
  | observe handle computed => exact .inl hp
  | use handle => exact .inl hp
  | drop handle => exact .inl (List.mem_of_mem_filter hp)
  | sweep kind => exact .inl hp

/-- Handles have the numbers of events that have happened. -/
theorem number_lt (options : CacheOptions) (past : List TableEvent) :
    ∀ p ∈ (after options past).handles, p.1 < past.length := by
  induction past with
  | nil => exact fun p hp => absurd hp List.not_mem_nil
  | cons event past ih =>
    intro p hp
    rcases mem_handles_next hp with hold | ⟨_, _, _, -, hnumber, -⟩
    · exact Nat.lt_succ_of_lt (ih p hold)
    · exact hnumber ▸ Nat.lt_succ_self _

end TableState

end EntityQuery
