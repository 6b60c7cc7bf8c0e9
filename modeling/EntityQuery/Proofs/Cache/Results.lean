import EntityQuery.Proofs.Cache.Course

/-!
# Results under their keys

An entry has the key of the computation that it was begun for, and every slot of a table points to
an entry with the key of the slot (`Table.Indexed`). Lookups begin entries and count uses, and
sweeps reset counters. Neither changes a key or a result (`Entries.Unreported`), so what a lookup
answers is found in an entry with the key that was looked up (`Table.Indexed.lookup`). Only reports
leave results, each in the entry of its handle (`Entries.of_report`).
-/

namespace EntityQuery

/-! ## Entries -/

namespace Entries

/-- Whether all entries are still there, under their keys. -/
def Keeps (old new : Entries) : Prop :=
  ∀ (i : EntryId) (e : Entry), old[i]? = some e → ∃ e', new[i]? = some e' ∧ e'.key = e.key

/-- Entries keep their keys while nothing happens. -/
theorem Keeps.refl (entries : Entries) : Keeps entries entries :=
  fun _ e he => ⟨e, he, rfl⟩

/-- Where there is an entry with some key, there will be one. -/
theorem Keeps.exists_key {old new : Entries} (h : Keeps old new) {i : EntryId} {key : Digest}
    (hkey : ∃ e, old[i]? = some e ∧ e.key = key) : ∃ e, new[i]? = some e ∧ e.key = key := by
  obtain ⟨e, he, rfl⟩ := hkey
  exact h i e he

/-- Entries keep their keys over two stretches of time. -/
theorem Keeps.trans {a b c : Entries} (hab : Keeps a b) (hbc : Keeps b c) : Keeps a c :=
  fun i e he => hbc.exists_key (hab i e he)

/-- The result that an entry keeps. -/
def result? (entries : Entries) (i : EntryId) : Option (Digest × Payload) :=
  entries[i]?.bind (·.payload)

/-- What happens to entries while nothing is reported. -/
structure Unreported (old new : Entries) : Prop where
  /-- Entries keep their keys. -/
  keeps : Keeps old new
  /-- They keep their results, and new ones have none. -/
  result?_eq : ∀ i, result? new i = result? old i

namespace Unreported

/-- Nothing happens. -/
theorem refl (entries : Entries) : Unreported entries entries := ⟨.refl entries, fun _ => rfl⟩

/-- One thing happens after the other. -/
theorem trans {a b c : Entries} (hab : Unreported a b) (hbc : Unreported b c) : Unreported a c :=
  ⟨hab.keeps.trans hbc.keeps, fun i => (hbc.result?_eq i).trans (hab.result?_eq i)⟩

/-- The bookkeeping of one entry goes on, apart from its result. -/
theorem modify (entries : Entries) (i : EntryId) {f : Entry → Entry}
    (hkey : ∀ e, (f e).key = e.key) (hpayload : ∀ e, (f e).payload = e.payload) :
    Unreported entries (entries.modify i f) := by
  constructor
  · intro j e he
    rw [Array.getElem?_modify, he]
    split_ifs
    · exact ⟨f e, rfl, hkey e⟩
    · exact ⟨e, rfl, rfl⟩
  · intro j
    rw [result?, result?, Array.getElem?_modify]
    split_ifs
    · rw [Option.bind_map]
      exact congrArg (Option.bind _) (funext hpayload)
    · rfl

/-- A new entry begins. -/
theorem push (entries : Entries) {e : Entry} (h : e.payload = none) :
    Unreported entries (entries.push e) := by
  constructor
  · intro i e' he'
    have hlt : i < entries.size := (Array.getElem?_eq_some_iff.1 he').1
    refine ⟨e', ?_, rfl⟩
    rw [Array.getElem?_push, if_neg (Nat.ne_of_lt hlt)]
    exact he'
  · intro i
    rw [result?, result?, Array.getElem?_push]
    split_ifs with hlast
    · rw [hlast, Array.getElem?_eq_none (Nat.le_refl _)]
      exact h
    · rfl

/-- A sweep resets counters. -/
theorem resetEntries (t : Table) (kind : SweepKind) (entries : Entries) :
    Unreported entries (t.resetEntries kind entries) := by
  unfold Table.resetEntries
  induction t.slots generalizing entries with
  | nil => exact refl entries
  | cons s rest ih =>
    rw [List.foldl_cons]
    split_ifs
    · have hsweep : Unreported entries (entries.modify s.2.entry Entry.sweep) :=
        modify entries s.2.entry (fun _ => rfl) fun _ => rfl
      exact hsweep.trans (ih _)
    · exact ih entries

/-- What has a result had it before, under the same key. -/
theorem exists_old {old new : Entries} (h : Unreported old new) {i : EntryId} {e' : Entry}
    {r : Digest × Payload} (he' : new[i]? = some e') (hr : e'.payload = some r) :
    ∃ e, old[i]? = some e ∧ e.key = e'.key ∧ e.payload = some r := by
  have hresult : result? old i = some r := by
    rw [← h.result?_eq, result?, he']
    exact hr
  obtain ⟨e, he, hpayload⟩ := Option.bind_eq_some_iff.1 hresult
  obtain ⟨e'', he'', hkey⟩ := h.keeps i e he
  obtain rfl := Option.some.inj (he'.symm.trans he'')
  exact ⟨e, he, hkey.symm, hpayload⟩

end Unreported

/-- Entries keep their keys when something is reported. -/
theorem Keeps.report (entries : Entries) (o : Observer) (computed : Computed) :
    Keeps entries (o.report computed entries) := by
  intro i e he
  rw [Observer.report_eq, Array.getElem?_modify, he]
  split_ifs
  · refine ⟨o.told computed e, rfl, ?_⟩
    cases o <;> rfl
  · exact ⟨e, rfl, rfl⟩

/-- What has a result after a report had it before, or has been left the one that was reported. -/
theorem of_report {entries : Entries} {o : Observer} {computed : Computed} {i : EntryId}
    {e' : Entry} {r : Digest × Payload} (he' : (o.report computed entries)[i]? = some e')
    (hr : e'.payload = some r) :
    ∃ e, entries[i]? = some e ∧ e.key = e'.key ∧
      (e.payload = some r ∨ i = o.entry ∧ r = (computed.snapshots, computed.payload)) := by
  rw [Observer.report_eq, Array.getElem?_modify] at he'
  split_ifs at he' with hi
  · obtain ⟨e, he, rfl⟩ := Option.map_eq_some_iff.1 he'
    rcases o with j | j
    · exact ⟨e, he, rfl, .inl hr⟩
    · refine ⟨e, he, rfl, ?_⟩
      -- An earlier result stays.
      rcases hpayload : e.payload with - | earlier
      · rw [Observer.told, Entry.record, hpayload] at hr
        exact .inr ⟨hi.symm, (Option.some.inj hr).symm⟩
      · rw [Observer.told, Entry.payload_record hpayload] at hr
        exact .inl hr
  · exact ⟨e', he', rfl, .inl hr⟩

end Entries

/-! ## The table -/

/-- Whether an answer about a key comes from an entry with the key. -/
def Lookup.IsFor (entries : Entries) (key snapshots : Digest) : Lookup → Prop
  | hit payload => ∃ (i : EntryId) (e : Entry), entries[i]? = some e ∧ e.key = key ∧
      e.payload = some (snapshots, payload)
  | record i | adept i => ∃ e, entries[i]? = some e ∧ e.key = key
  | stale => True

namespace Table

section Lookup

variable (t : Table) (entries : Entries) (key : Digest) (kind : RecordKind) (snapshots : Digest)
  {payload : Payload}

/-- Nothing is reported when a slot is asked. -/
theorem unreported_classify (slot : Slot) :
    Entries.Unreported entries (t.classify entries slot snapshots).2.2 := by
  have huse (i : EntryId) : Entries.Unreported entries (entries.modify i Entry.use) :=
    .modify entries i (fun _ => rfl) fun _ => rfl
  unfold classify
  split
  · exact huse _
  · split
    · exact .refl entries
    · split
      · exact huse _
      · split_ifs
        · exact .refl entries
        · exact huse _

/-- Nothing is reported by a lookup. -/
theorem unreported_lookup :
    Entries.Unreported entries (t.lookup entries key kind snapshots).entries := by
  unfold lookup
  split
  · exact unreported_classify ..
  · exact (Entries.Unreported.push entries rfl).trans (unreported_classify ..)

variable {t entries key kind snapshots}

/-- A slot gives the result of its entry. -/
theorem result?_of_classify {slot : Slot}
    (h : (t.classify entries slot snapshots).1 = .hit payload) :
    entries.result? slot.entry = some (snapshots, payload) := by
  rcases slot with i | i
  · cases h
  · unfold classify at h
    dsimp only at h
    split at h
    · cases h
    · rename_i e he
      split at h
      · rename_i found hfound
        obtain rfl := Lookup.hit.inj h
        show entries[i]?.bind Entry.payload = some (snapshots, found)
        rw [he, Option.bind_some]
        exact Entry.payloadFor_eq_some_iff.1 hfound
      · split_ifs at h

/-- A lookup gives the result of an entry. -/
theorem exists_result_of_hit (h : (t.lookup entries key kind snapshots).answer = .hit payload) :
    ∃ i, entries.result? i = some (snapshots, payload) := by
  unfold lookup at h
  split at h
  · exact ⟨_, result?_of_classify h⟩
  · cases h

end Lookup

/-- Whether every slot points to an entry with the key of the slot. -/
def Indexed (t : Table) (entries : Entries) : Prop :=
  ∀ s ∈ t.slots, ∃ e, entries[s.2.entry]? = some e ∧ e.key = s.1

namespace Indexed

variable {t : Table} {entries : Entries}

/-- A table stays indexed when entries keep their keys. -/
theorem mono {new : Entries} (hkeep : Entries.Keeps entries new) (h : t.Indexed entries) :
    t.Indexed new :=
  fun s hs => hkeep.exists_key (h s hs)

/-- The slot that is found under a key has an entry with the key. -/
theorem exists_entry (h : t.Indexed entries) {key : Digest} {slot : Slot}
    (hslot : t.slots.lookup key = some slot) : ∃ e, entries[slot.entry]? = some e ∧ e.key = key :=
  h _ (mem_of_lookup_eq_some hslot)

/-- A lookup leaves the table indexed and reports nothing, and it answers from an entry with the key
that is looked up. -/
theorem lookup (h : t.Indexed entries) (key : Digest) (kind : RecordKind) (snapshots : Digest) :
    let c := t.lookup entries key kind snapshots
    c.table.Indexed c.entries ∧ Entries.Unreported entries c.entries ∧
      c.answer.IsFor c.entries key snapshots := by
  have hlt : ∀ s ∈ t.slots, s.2.entry < entries.size := by
    intro s hs
    obtain ⟨e, he, -⟩ := h s hs
    exact (Array.getElem?_eq_some_iff.1 he).1
  have hlooks := looksUp hlt key kind snapshots
  have hunreported := t.unreported_lookup entries key kind snapshots
  generalize t.lookup entries key kind snapshots = c at hlooks hunreported ⊢
  have hkeeps := hunreported.keeps
  have hused {slot : Slot} (hslot : t.slots.lookup key = some slot) :
      ∃ e, c.entries[slot.entry]? = some e ∧ e.key = key :=
    hkeeps.exists_key (h.exists_entry hslot)
  cases hlooks with
  | inserted hslot schedule =>
    -- The new entry has the key.
    let new : Entry := { kind, key }
    have hnew :
        ((entries.push new).modify entries.size Entry.use)[entries.size]? = some new.use := by
      rw [Array.getElem?_modify, if_pos rfl, Array.getElem?_push_size]
      rfl
    refine ⟨fun s hs => ?_, hunreported, new.use, hnew, rfl⟩
    rcases List.mem_cons.1 hs with rfl | hold
    · exact ⟨new.use, hnew, rfl⟩
    · exact h.mono hkeeps s hold
  | followed hslot => exact ⟨h.mono hkeeps, hunreported, hused hslot⟩
  | awaited hslot _ _ => exact ⟨h.mono hkeeps, hunreported, hused hslot⟩
  | @found i e payload hslot he hpayload =>
    obtain ⟨e₀, he₀, hkey⟩ := h.exists_entry hslot
    obtain rfl : e₀ = e := Option.some.inj (he₀.symm.trans he)
    have hentry : (entries.modify i Entry.use)[i]? = some e₀.use := by
      rw [Array.getElem?_modify, if_pos rfl, he]
      rfl
    exact ⟨h.mono hkeeps, hunreported, i, e₀.use, hentry, hkey, hpayload⟩
  | outdated hslot he hpayload hne => exact ⟨h, hunreported, trivial⟩

/-- A sweep only drops slots and promotes adepts, and reports nothing. -/
theorem sweep (h : t.Indexed entries) (kind : SweepKind) (held : EntryId → Bool) :
    (t.sweep kind held entries).2.1.Indexed (t.sweep kind held entries).2.2 ∧
      Entries.Unreported entries (t.sweep kind held entries).2.2 := by
  have hreset : Entries.Unreported entries (t.resetEntries kind entries) := .resetEntries t kind _
  refine ⟨fun s hs => ?_, hreset⟩
  -- A slot that is left has the key and the entry that it had before.
  obtain ⟨j, hj, hslot⟩ := List.mem_filterMap.1 hs
  obtain ⟨s₀, hs₀, rfl⟩ := List.mem_map.1 hj
  obtain ⟨slot, hverdict, rfl⟩ := Option.map_eq_some_iff.1 hslot
  obtain ⟨e, he, hkey⟩ := h.mono hreset.keeps s₀ hs₀
  exact ⟨e, entry_applyVerdict hverdict ▸ he, hkey⟩

end Indexed

end Table

end EntityQuery
