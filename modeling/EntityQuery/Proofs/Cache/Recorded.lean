import EntityQuery.Proofs.Cache.Course

/-!
# Recorded results

What has the slot of a key goes through stages: it is followed from the lookup that inserted it, and
it is cached from the sweep that promoted it. In each stage only the first report counts of those
that come through the handles which were given out for the key since the stage began
(`TableState.firstReport`): the first one measures the computation, and the first one after its
promotion leaves the result. Reports through older handles go elsewhere
(`TableState.mem_handlesSince_iff`), so nothing of an evicted or an expired record reaches the
record that has the slot now (`TableState.lookup_recorded`).
-/

namespace EntityQuery

/-- Whether an event looks a key up. -/
def TableEvent.looksUp (key : Digest) : TableEvent → Bool
  | lookup key' _ _ => key' = key
  | observe _ _ | use _ | drop _ | sweep _ => false

namespace TableState

variable (options : CacheOptions) (key : Digest)

/-- Whether the latest of some events inserted a key. -/
def inserts : List TableEvent → Bool
  | [] => false
  | event :: past =>
    ((after options past).slot? key).isNone && ((after options (event :: past)).slot? key).isSome

/-- Whether the latest of some events promoted the adept of a key. -/
def promotes : List TableEvent → Bool
  | [] => false
  | event :: past =>
    ((after options past).slot? key).any (·.isAdept)
      && ((after options (event :: past)).slot? key).any (!·.isAdept)

/-- The handles that were given out for a key since something began. -/
def handlesSince (begins : List TableEvent → Bool) : List TableEvent → List ℕ
  | [] => []
  | event :: past =>
    let earlier := if begins (event :: past) then [] else handlesSince begins past
    if event.looksUp key then past.length :: earlier else earlier

/-- What an event reports, through a handle of some sort that was given out for a key since
something began. -/
def reported (begins : List TableEvent → Bool) (through : Observer → Bool)
    (past : List TableEvent) : TableEvent → Option Computed
  | .observe handle computed =>
    if handle ∈ handlesSince key begins past
        ∧ ((after options past).handle? handle).any through = true then some computed else none
  | .lookup _ _ _ | .use _ | .drop _ | .sweep _ => none

/-- The first such report since something began. -/
def firstReport (begins : List TableEvent → Bool) (through : Observer → Bool) :
    List TableEvent → Option Computed
  | [] => none
  | event :: past =>
    if begins (event :: past) then none
    else (firstReport begins through past).or (reported options key begins through past event)

/-- The first report through the handles to an adept that were given out for a key since it was
inserted. -/
def measured : List TableEvent → Option Computed :=
  firstReport options key (inserts options key) (!·.isRecording)

/-- The first report through the handles to a record that were given out for a key since its adept
was promoted. -/
def recorded : List TableEvent → Option Computed :=
  firstReport options key (promotes options key) (·.isRecording)

/-- The result of the record of a key, with the snapshots that it was computed from. -/
def result? (s : TableState) (key : Digest) : Option (Digest × Payload) :=
  match s.slot? key with
  | some (.cached i) => s.entries[i]?.bind (·.payload)
  | some (.adept _) | none => none

variable {options key}

/-! ## Stages -/

/-- Before a key is inserted it has no slot. -/
theorem slot?_of_inserts {event : TableEvent} {past : List TableEvent}
    (h : inserts options key (event :: past) = true) : (after options past).slot? key = none := by
  rw [inserts, Bool.and_eq_true] at h
  exact Option.isNone_iff_eq_none.1 h.1

/-- Before it is promoted it has the slot of an adept. -/
theorem slot?_of_promotes {event : TableEvent} {past : List TableEvent}
    (h : promotes options key (event :: past) = true) :
    ∃ i, (after options past).slot? key = some (.adept i) := by
  rw [promotes, Bool.and_eq_true] at h
  obtain ⟨slot, hslot, hadept⟩ := (Option.any_eq_true _ _).1 h.1
  rcases slot with i | i
  · exact ⟨i, hslot⟩
  · exact absurd hadept Bool.false_ne_true

/-- A stage of what has the slot of a key: it begins with an event before which no handle of its
sort led to the entry, and it lasts while the slot keeps its entry. -/
structure Stage (options : CacheOptions) (key : Digest) (begins : List TableEvent → Bool)
    (through : Observer → Bool) (lasts : Slot → Prop) : Prop where
  /-- No handle of its sort is older than a stage. -/
  fresh : ∀ {event past slot}, begins (event :: past) = true →
    (after options (event :: past)).slot? key = some slot → lasts slot →
      ∀ p ∈ (after options past).handles, through p.2 = true → p.2.entry ≠ slot.entry
  /-- A stage that does not begin goes on. -/
  goesOn : ∀ {event past slot}, begins (event :: past) = false →
    (after options (event :: past)).slot? key = some slot → lasts slot →
      ∃ slot', (after options past).slot? key = some slot' ∧ lasts slot' ∧ slot'.entry = slot.entry

/-- What has a slot is followed since it was inserted. No handle of any sort is older. -/
theorem stage_inserts (options : CacheOptions) (key : Digest) (through : Observer → Bool) :
    Stage options key (inserts options key) through fun _ => True := by
  constructor
  · intro event past slot hbegins hslot _ p hp _
    have hnone := slot?_of_inserts hbegins
    -- The entry of what is new is one that no handle leads to.
    have hconsistent := after_consistent options past
    rcases hconsistent.slot_next hslot with ⟨-, rfl, -⟩ | hsame | ⟨i, hadept, -⟩
    · exact Nat.ne_of_lt (hconsistent.handle_lt p hp)
    · exact absurd (hnone.symm.trans hsame) (Option.some_ne_none slot).symm
    · exact absurd (hnone.symm.trans hadept) (Option.some_ne_none _).symm
  · intro event past slot hbegins hslot _
    have hconsistent := after_consistent options past
    rcases hconsistent.slot_next hslot with ⟨hnone, -⟩ | hsame | ⟨i, hadept, rfl, -⟩
    · have hbegins' : inserts options key (event :: past) = true := by simp [inserts, hnone, hslot]
      exact absurd (hbegins'.symm.trans hbegins) (by simp)
    · exact ⟨slot, hsame, trivial, rfl⟩
    · exact ⟨_, hadept, trivial, rfl⟩

/-- A record is cached since its adept was promoted. -/
theorem stage_promotes (options : CacheOptions) (key : Digest) :
    Stage options key (promotes options key) (·.isRecording) fun slot => slot.isAdept = false := by
  constructor
  · intro event past slot hbegins hslot hcached p hp hrecording
    obtain ⟨j, hbefore⟩ := slot?_of_promotes hbegins
    -- Before, the entry was that of an adept, and no handle to a record led to it.
    have hconsistent := after_consistent options past
    rcases hconsistent.slot_next hslot with ⟨-, rfl, -⟩ | hsame | ⟨i, hi, rfl, -⟩
    · exact absurd hcached (by simp)
    · obtain rfl := Option.some.inj (hbefore.symm.trans hsame)
      exact absurd hcached (by simp)
    · rintro rfl
      exact hconsistent.recording p hp hrecording key (hconsistent.slot?_eq_some_iff.1 hi)
  · intro event past slot hbegins hslot hcached
    have hconsistent := after_consistent options past
    rcases hconsistent.slot_next hslot with ⟨-, rfl, -⟩ | hsame | ⟨i, hi, rfl, -⟩
    · exact absurd hcached (by simp)
    · exact ⟨slot, hsame, hcached, rfl⟩
    · have hbegins' : promotes options key (event :: past) = true := by
        simp [promotes, hi, hslot]
      exact absurd (hbegins'.symm.trans hbegins) (by simp)

section Stages

variable {begins : List TableEvent → Bool} {through : Observer → Bool} {lasts : Slot → Prop}

/-- A handle was given out by the latest event or before. -/
theorem mem_handlesSince_cons {event : TableEvent} {past : List TableEvent} {number : ℕ} :
    number ∈ handlesSince key begins (event :: past)
      ↔ event.looksUp key = true ∧ number = past.length
        ∨ begins (event :: past) = false ∧ number ∈ handlesSince key begins past := by
  rw [handlesSince]
  rcases event.looksUp key with - | - <;> rcases begins (event :: past) with - | - <;> simp

/-- Handles have the numbers of events that have happened. -/
theorem lt_of_mem_handlesSince {past : List TableEvent} {number : ℕ}
    (h : number ∈ handlesSince key begins past) : number < past.length := by
  induction past with
  | nil => exact absurd h List.not_mem_nil
  | cons event past ih =>
    rcases mem_handlesSince_cons.1 h with ⟨-, rfl⟩ | ⟨-, hearlier⟩
    · exact Nat.lt_succ_self _
    · exact Nat.lt_succ_of_lt (ih hearlier)

/-- The handles that lead to the entry of a key are those that were given out for the key since the
stage began. -/
theorem mem_handlesSince_iff (hstage : Stage options key begins through lasts)
    {past : List TableEvent} {slot : Slot} (hslot : (after options past).slot? key = some slot)
    (hlasts : lasts slot) {p : ℕ × Observer} (hp : p ∈ (after options past).handles)
    (hthrough : through p.2 = true) :
    p.1 ∈ handlesSince key begins past ↔ p.2.entry = slot.entry := by
  induction past generalizing slot with
  | nil => exact absurd hp List.not_mem_nil
  | cons event past ih =>
    have hconsistent := after_consistent options past
    rw [mem_handlesSince_cons]
    rcases mem_handles_next hp with hold | ⟨key', kind, snapshots, rfl, hnumber, hanswer⟩
    · -- An older handle was not given out by the latest event.
      have hne : p.1 ≠ past.length := Nat.ne_of_lt (number_lt options past p hold)
      rcases hbegins : begins (event :: past) with - | -
      · obtain ⟨slot', hslot', hlasts', hentry⟩ := hstage.goesOn hbegins hslot hlasts
        rw [← hentry, ← ih hslot' hlasts' hold]
        simp [hne]
      · have hfresh := hstage.fresh hbegins hslot hlasts p hold hthrough
        simp [hne, hfresh]
    · -- The new handle is given out for the key that is looked up.
      obtain ⟨slot', hslot', hentry, -⟩ :=
        hconsistent.handle_lookup past.length hanswer
      have hlater : p.1 ∉ handlesSince key begins past :=
        fun h => absurd hnumber (Nat.ne_of_lt (lt_of_mem_handlesSince h))
      by_cases hkey : key' = key
      · subst hkey
        obtain rfl := Option.some.inj (hslot'.symm.trans hslot)
        simp [TableEvent.looksUp, hnumber, hentry]
      · have hother : p.2.entry ≠ slot.entry := by
          rw [hentry]
          intro h
          exact hkey ((hconsistent.next _ _).key_eq hslot' hslot h)
        simp [TableEvent.looksUp, hkey, hlater, hother]

/-- What the reports of one sort leave in an entry: each of them tells something where nothing was
told before, and nothing else does. -/
structure Tells {β : Type} (through : Observer → Bool) (view : Entry → Option β)
    (result : Computed → β) : Prop where
  /-- A use tells nothing. -/
  use : ∀ e, view e.use = view e
  /-- Nor does a sweep. -/
  sweep : ∀ e, view e.sweep = view e
  /-- A report of the sort tells its result, unless a result was told before. -/
  told : ∀ o computed e, through o = true →
    view (o.told computed e) = (view e).or (some (result computed))
  /-- Other reports tell nothing. -/
  other : ∀ o computed e, through o = false → view (o.told computed e) = view e

/-- A report that counts comes through a handle to the entry of the key. -/
theorem reported_observe (hstage : Stage options key begins through lasts) {past : List TableEvent}
    {slot : Slot} (hslot : (after options past).slot? key = some slot) (hlasts : lasts slot)
    {handle : ℕ} {o : Observer} (ho : (after options past).handle? handle = some o)
    (computed : Computed) :
    reported options key begins through past (.observe handle computed)
      = if through o = true ∧ o.entry = slot.entry then some computed else none := by
  have hmem : (handle, o) ∈ (after options past).handles := mem_of_handle?_eq_some ho
  rw [reported, ho, Option.any_some]
  rcases hthrough : through o with - | -
  · simp
  · have hiff := mem_handlesSince_iff hstage hslot hlasts hmem hthrough
    simp only [hiff, true_and, and_true]

/-- What an entry tells is the first of the reports since the stage began. -/
theorem view_eq_firstReport {β : Type} {view : Entry → Option β} {result : Computed → β}
    (hstage : Stage options key begins through lasts) (htells : Tells through view result)
    (hempty : ∀ {event past slot e}, begins (event :: past) = true →
      (after options (event :: past)).slot? key = some slot → lasts slot →
        (after options (event :: past)).entries[slot.entry]? = some e → view e = none)
    {past : List TableEvent} {slot : Slot} {e : Entry}
    (hslot : (after options past).slot? key = some slot) (hlasts : lasts slot)
    (he : (after options past).entries[slot.entry]? = some e) :
    view e = (firstReport options key begins through past).map result := by
  induction past generalizing slot e with
  | nil => exact absurd hslot (by simp [after, slot?])
  | cons event past ih =>
    rw [firstReport]
    rcases hbegins : begins (event :: past) with - | -
    · obtain ⟨slot', hslot', hlasts', hentry⟩ := hstage.goesOn hbegins hslot hlasts
      have hconsistent := after_consistent options past
      obtain ⟨e', he', -⟩ := hconsistent.exists_entry hslot'
      have ih := ih hslot' hlasts' he'
      rw [← hentry] at he
      rw [if_neg Bool.false_ne_true]
      cases event with
      | lookup key' kind snapshots =>
        obtain rfl := Option.some.inj (he.symm.trans (hconsistent.entry_lookup hslot' he'))
        rw [reported, Option.or_none, ← ih]
        split_ifs
        · exact htells.use e'
        · rfl
      | observe handle computed =>
        obtain rfl := Option.some.inj (he.symm.trans (entry_observe he'))
        rcases ho : (after options past).handle? handle with - | o
        · rw [reported, ho, Option.elim_none, Option.any_none, if_neg (by simp), Option.or_none, ih]
        · rw [reported_observe hstage hslot' hlasts' ho, Option.elim_some]
          by_cases hentry' : o.entry = slot'.entry
          · rw [if_pos hentry']
            rcases hthrough : through o with - | -
            · rw [htells.other o computed e' hthrough, ih]
              simp
            · rw [htells.told o computed e' hthrough, ih, if_pos ⟨rfl, hentry'⟩, Option.map_or]
              rfl
          · rw [if_neg hentry', if_neg fun h => hentry' h.2, Option.or_none, ih]
      | use handle =>
        obtain rfl := Option.some.inj (he.symm.trans (entry_use hslot' he'))
        rw [reported, Option.or_none, ← ih]
        split_ifs
        · exact htells.use e'
        · rfl
      | drop handle =>
        obtain rfl := Option.some.inj (he.symm.trans he')
        rw [reported, Option.or_none, ← ih]
      | sweep kind =>
        obtain rfl := Option.some.inj (he.symm.trans (hconsistent.entry_sweep hslot' he' kind))
        rw [reported, Option.or_none, ← ih]
        split_ifs
        · exact htells.sweep e'
        · rfl
    · rw [if_pos rfl, hempty hbegins hslot hlasts he]
      rfl

end Stages

/-! ## What is measured and what is recorded -/

/-- Reports through handles to adepts measure. -/
theorem tells_metrics : Tells (!·.isRecording) Entry.metrics
    fun c => (⟨c.cost, Word.wrap (c.size + recordOverhead)⟩ : Metrics) where
  use _ := rfl
  sweep _ := rfl
  told o computed e h := by
    cases o
    · rfl
    · exact absurd h (by simp [Observer.isRecording])
  other o computed e h := by
    cases o
    · exact absurd h (by simp [Observer.isRecording])
    · rfl

/-- Reports through handles to records leave results. -/
theorem tells_payload : Tells (·.isRecording) Entry.payload fun c => (c.snapshots, c.payload) where
  use _ := rfl
  sweep _ := rfl
  told o computed e h := by
    cases o
    · exact absurd h (by simp [Observer.isRecording])
    · rfl
  other o computed e h := by
    cases o
    · rfl
    · exact absurd h (by simp [Observer.isRecording])

variable {past : List TableEvent} {slot : Slot} {e : Entry} {i : EntryId}

/-- What was measured of a computation is the first report since it was inserted. -/
theorem metrics_eq_measured (hslot : (after options past).slot? key = some slot)
    (he : (after options past).entries[slot.entry]? = some e) :
    e.metrics = (measured options key past).map fun c =>
      ⟨c.cost, Word.wrap (c.size + recordOverhead)⟩ := by
  refine view_eq_firstReport (stage_inserts options key _) tells_metrics ?_ hslot trivial he
  intro event past slot e hbegins hslot _ he
  have hnone := slot?_of_inserts hbegins
  have hconsistent := after_consistent options past
  rcases hconsistent.slot_next hslot with ⟨-, rfl, kind, snapshots, rfl⟩ | hsame | ⟨i, hadept, -⟩
  · obtain rfl := Option.some.inj (he.symm.trans (hconsistent.entry_inserted hnone))
    rfl
  · exact absurd (hnone.symm.trans hsame) (Option.some_ne_none slot).symm
  · exact absurd (hnone.symm.trans hadept) (Option.some_ne_none _).symm

/-- The result of a record is the first report since its adept was promoted. -/
theorem payload_eq_recorded (hslot : (after options past).slot? key = some (.cached i))
    (he : (after options past).entries[i]? = some e) :
    e.payload = (recorded options key past).map fun c => (c.snapshots, c.payload) := by
  refine view_eq_firstReport (stage_promotes options key) tells_payload ?_ hslot rfl he
  intro event past slot e hbegins hslot hcached he
  obtain ⟨j, hbefore⟩ := slot?_of_promotes hbegins
  have hconsistent := after_consistent options past
  rcases hconsistent.slot_next hslot with ⟨hnone, -⟩ | hsame | ⟨i, hi, rfl, kind, rfl⟩
  · exact absurd (hnone.symm.trans hbefore) (Option.some_ne_none _).symm
  · obtain rfl := Option.some.inj (hbefore.symm.trans hsame)
    exact absurd hcached (by simp)
  · -- The entry was that of an adept, which has no result.
    obtain ⟨e', he', hsuits⟩ := hconsistent.exists_entry hi
    obtain rfl := Option.some.inj (he.symm.trans (hconsistent.entry_sweep hi he' kind))
    split_ifs <;> exact hsuits

/-- A record was promoted, and has its slot since. -/
theorem exists_promotes (hslot : (after options past).slot? key = some (.cached i)) :
    ∃ since before, past = since ++ before ∧ promotes options key before = true
      ∧ ∀ mid, mid <:+ since → (after options (mid ++ before)).slot? key = some (.cached i) := by
  induction past with
  | nil => exact absurd hslot (by simp [after, slot?])
  | cons event past ih =>
    have hconsistent := after_consistent options past
    rcases hconsistent.slot_next hslot with ⟨-, hnew, -⟩ | hsame | ⟨j, hadept, hj, -⟩
    · exact absurd hnew (by simp)
    · obtain ⟨since, before, rfl, hpromotes, hsince⟩ := ih hsame
      refine ⟨event :: since, before, rfl, hpromotes, fun mid hmid => ?_⟩
      rcases List.suffix_cons_iff.1 hmid with rfl | hmid
      · exact hslot
      · exact hsince mid hmid
    · refine ⟨[], event :: past, rfl, ?_, fun mid hmid => ?_⟩
      · simp [promotes, hadept, hslot]
      · rw [List.suffix_nil.1 hmid]
        exact hslot

/-! ## What lookups return -/

/-- The result of a record is that of its entry. -/
theorem result?_eq_some {s : TableState} {result : Digest × Payload} :
    s.result? key = some result
      ↔ ∃ i e, s.slot? key = some (.cached i) ∧ s.entries[i]? = some e
        ∧ e.payload = some result := by
  unfold result?
  constructor
  · intro h
    split at h
    · next i hslot =>
      obtain ⟨e, he, hpayload⟩ := Option.bind_eq_some_iff.1 h
      exact ⟨i, e, hslot, he, hpayload⟩
    · exact absurd h (Option.some_ne_none result).symm
    · exact absurd h (Option.some_ne_none result).symm
  · rintro ⟨i, e, hslot, he, hpayload⟩
    rw [hslot]
    dsimp only
    rw [he, Option.bind_some, hpayload]

/-- A record with a result answers with it or is stale. -/
theorem answer_of_result? {s : TableState} {recorded : Digest} {payload : Payload}
    (h : s.result? key = some (recorded, payload)) (kind : RecordKind) (snapshots : Digest) :
    s.answer key kind snapshots = if recorded = snapshots then .hit payload else .stale := by
  obtain ⟨i, e, hslot, he, hpayload⟩ := result?_eq_some.1 h
  have hslot : s.table.slots.lookup key = some (.cached i) := hslot
  simp only [answer, Table.lookup, Table.classify, hslot, he, Entry.payloadFor, hpayload]
  by_cases hsame : recorded = snapshots
  · rw [if_pos hsame, if_pos hsame]
  · rw [if_neg hsame, if_neg hsame]
    rfl

/-- What is returned is the result of a record. -/
theorem Consistent.result?_of_hit {s : TableState} (h : s.Consistent) {kind : RecordKind}
    {snapshots : Digest} {payload : Payload} (hhit : s.answer key kind snapshots = .hit payload) :
    s.result? key = some (snapshots, payload) := by
  have hlooks := Table.looksUp h.entry_lt key kind snapshots
  unfold answer at hhit
  generalize s.table.lookup s.entries key kind snapshots = c at hlooks hhit
  cases hlooks with
  | found hslot he hpayload =>
    obtain rfl := Lookup.hit.inj hhit
    exact result?_eq_some.2 ⟨_, _, hslot, he, hpayload⟩
  | inserted hslot schedule => cases hhit
  | followed hslot => cases hhit
  | awaited hslot he hpayload => cases hhit
  | outdated hslot he hpayload hne => cases hhit

/-- The result of a record stays until its slot is gone. -/
theorem Consistent.result?_next {s : TableState} (h : s.Consistent) {result : Digest × Payload}
    (hresult : s.result? key = some result) (number : ℕ) (event : TableEvent) :
    (s.next number event).result? key = some result ∨ (s.next number event).slot? key = none := by
  obtain ⟨i, e, hslot, he, hpayload⟩ := result?_eq_some.1 hresult
  rcases hnext : (s.next number event).slot? key with - | slot
  · exact .inr rfl
  · rcases h.slot_next hnext with ⟨hnone, -⟩ | hsame | ⟨j, hadept, -⟩
    · exact absurd (hnone.symm.trans hslot) (Option.some_ne_none _).symm
    · obtain rfl := Option.some.inj (hsame.symm.trans hslot)
      obtain ⟨e', he', hchange⟩ := h.entry_next hslot he number event
      refine .inl (result?_eq_some.2 ⟨i, e', hnext, he', ?_⟩)
      rcases hchange with rfl | rfl | rfl | ⟨o, computed, rfl⟩
      · exact hpayload
      · exact hpayload
      · exact hpayload
      · rcases o with j | j
        · exact hpayload
        · exact Entry.payload_record hpayload computed.snapshots computed.payload
    · exact absurd (hadept.symm.trans hslot) (by simp)

/-- What a hit returns was recorded first on the record that has the slot since its promotion,
whatever was reported before, through older handles or later, and for these very snapshots. For
other snapshots the record is stale, and its result stays as long as the record. -/
theorem lookup_recorded (options : CacheOptions) (past : List TableEvent) (key : Digest)
    (kind : RecordKind) (snapshots : Digest) :
    (∀ payload, (after options past).answer key kind snapshots = .hit payload →
      ∃ since before computed,
        past = since ++ before ∧ promotes options key before = true
          ∧ (∀ mid, mid <:+ since →
            (after options (mid ++ before)).slot? key = (after options past).slot? key)
          ∧ recorded options key past = some computed
          ∧ computed.snapshots = snapshots ∧ computed.payload = payload)
      ∧ ∀ result, (after options past).result? key = some result →
        (result.1 ≠ snapshots → (after options past).answer key kind snapshots = .stale)
          ∧ ∀ later, (after options (later ++ past)).result? key = some result
            ∨ ∃ mid, mid <:+ later ∧ (after options (mid ++ past)).slot? key = none := by
  refine ⟨fun payload hhit => ?_, fun result hresult => ⟨fun hne => ?_, fun later => ?_⟩⟩
  · have hresult := (after_consistent options past).result?_of_hit hhit
    obtain ⟨i, e, hslot, he, hpayload⟩ := result?_eq_some.1 hresult
    obtain ⟨since, before, hpast, hpromotes, hsince⟩ := exists_promotes hslot
    rw [payload_eq_recorded hslot he] at hpayload
    obtain ⟨computed, hrecorded, hpair⟩ := Option.map_eq_some_iff.1 hpayload
    obtain ⟨hsnapshots, hpayload⟩ := Prod.mk.inj hpair
    refine ⟨since, before, computed, hpast, hpromotes, fun mid hmid => ?_, hrecorded, hsnapshots,
      hpayload⟩
    rw [hslot]
    exact hsince mid hmid
  · rw [answer_of_result? hresult, if_neg hne]
  · induction later with
    | nil => exact .inl hresult
    | cons event later ih =>
      rcases ih with hstill | ⟨mid, hmid, hgone⟩
      · rcases (after_consistent options (later ++ past)).result?_next hstill
            (later ++ past).length event with hnext | hgone
        · exact .inl hnext
        · exact .inr ⟨event :: later, List.suffix_rfl, hgone⟩
      · exact .inr ⟨mid, hmid.trans (List.suffix_cons event later), hgone⟩

/-- A run in which a record expires and its computation is promoted again. The handle to the former
record reports before the handle to the new one does. -/
def lateReport (key snapshots : Digest) : List TableEvent :=
  let lookup : TableEvent := .lookup key .sorted snapshots
  let observe (handle : ℕ) (payload : Payload) : TableEvent :=
    .observe handle { cost := 1000, size := 10, snapshots, payload }
  [observe 9 (.sorted [3]), observe 3 (.sorted [2]), lookup, .sweep .periodic,
    observe 6 (.sorted [1]), lookup, .sweep .periodic, .sweep .periodic, lookup, .sweep .periodic,
    observe 0 (.sorted [0]), lookup]

/-- What the late report tells is not what the new record returns. -/
theorem lookup_recorded_lateReport :
    let options : CacheOptions := { coolEnough := 0, minimalUsage := 0 }
    let past := lateReport (.word 7) (.word 1)
    (after options past).answer (.word 7) .sorted (.word 1) = .hit (.sorted [3])
      ∧ (∃ computed, recorded options (.word 7) past = some computed
        ∧ computed.snapshots = .word 1 ∧ computed.payload = .sorted [3])
      ∧ (after options past).answer (.word 7) .sorted (.word 2) = .stale := by
  intro options past
  have hhit : (after options past).answer (.word 7) .sorted (.word 1) = .hit (.sorted [3]) := by cbv
  have hresult : (after options past).result? (.word 7) = some (.word 1, .sorted [3]) := by cbv
  obtain ⟨-, -, computed, -, -, -, hrecorded, hreported⟩ :=
    (lookup_recorded options past (.word 7) .sorted (.word 1)).1 _ hhit
  have hstale := ((lookup_recorded options past (.word 7) .sorted (.word 2)).2 _ hresult).1
  exact ⟨hhit, ⟨computed, hrecorded, hreported⟩, hstale (by decide)⟩

end TableState

end EntityQuery
