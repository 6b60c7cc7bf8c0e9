import EntityQuery.Proofs.Cache.Accounting

/-!
# When records expire

A record expires at the periodic sweep that is told of more idle sweeps than the options allow. The
counter is the one that the computation had before it was promoted, so it counts the idle periodic
sweeps since then (`TableState.idleSweeps`) on top of the idle sweeps of both kinds that the record
inherits from the time before (`TableState.inherited`). The latter are forgotten as soon as a
periodic sweep finds a use. What is counted is kept as a word of half the width and told up to the
largest one (`TableState.toldIdle`), so a cache that allows for that many idle sweeps lets nothing
expire. Where it allows for fewer and nothing is inherited, a record expires exactly at the first
idle sweep too many (`TableState.expires_iff`), and where something is inherited it may expire
before (`TableState.not_expires_iff_idle`).
-/

namespace EntityQuery

namespace TableState

/-- Whether the slot of a key is that of a record. -/
def hasRecord (s : TableState) (key : Digest) : Bool := (s.slot? key).any (!·.isAdept)

/-- Whether an event is a sweep that looks at the uses of what has the slot of a key: a periodic
one, or any while it is an adept. -/
def looksAt (s : TableState) (key : Digest) : TableEvent → Bool
  | .sweep kind => (s.slot? key).any (Table.resetsUsage kind)
  | .lookup _ _ _ | .observe _ _ | .use _ | .drop _ => false

variable (options : CacheOptions) (key : Digest)

/-- Whether a use was counted since a sweep looked last. For a record that is since the last
periodic sweep or since its promotion, whichever is later. -/
def usedSince : List TableEvent → Bool
  | [] => false
  | event :: past =>
    !(after options past).looksAt key event
      && ((after options past).countsUse key event || usedSince past)

/-- How many periodic sweeps in a row, all over the record of a key, have found no use of it. -/
def idleSweeps : List TableEvent → ℕ
  | [] => 0
  | event :: past =>
    if (after options past).hasRecord key then
      if (after options past).looksAt key event then
        if usedSince options key past then 0 else idleSweeps past + 1
      else idleSweeps past
    else 0

/-- How many sweeps in a row, up to the promotion of the record of a key, found no use of its adept.
They are forgotten once a periodic sweep finds a use of the record. -/
def inherited : List TableEvent → ℕ
  | [] => 0
  | event :: past =>
    if ((after options past).slot? key).isSome then
      if (after options past).looksAt key event then
        if usedSince options key past then 0
        else if (after options past).hasRecord key then inherited past
        else inherited past + 1
      else inherited past
    else 0

/-- What a sweep is told of a computation that so many sweeps in a row, this one included, have
found idle. The counter that it reads holds those before as a word of half the width, and the sum
stops at the largest word. -/
def toldIdle : ℕ → ℕ
  | 0 => 0
  | n + 1 => HalfWord.satAdd (HalfWord.wrap n) 1

/-- A sweep is told of the idle sweeps that there were, as long as their number is a word of half
the width. -/
theorem toldIdle_of_le {n : ℕ} (h : n ≤ HalfWord.max) : toldIdle n = n := by
  rcases n with - | n
  · rfl
  · have hword : HalfWord.wrap n = n := Nat.mod_eq_of_lt (h.trans (by decide))
    rw [toldIdle, hword]
    exact Nat.min_eq_left h

/-- A sweep is told of a word of half the width. -/
theorem toldIdle_le_max (n : ℕ) : toldIdle n ≤ HalfWord.max := by
  rcases n with - | n
  · exact Nat.zero_le _
  · exact Nat.min_le_right _ _

variable {options key} {s : TableState} {past : List TableEvent} {slot : Slot} {e e' : Entry}

/-! ## Counters -/

/-- Whether there is a record is read off the slot. -/
theorem hasRecord_eq (hslot : s.slot? key = some slot) : s.hasRecord key = !slot.isAdept := by
  rw [hasRecord, hslot, Option.any_some]

/-- What an event does to the counters of an entry with a slot. -/
theorem Consistent.usage_next (h : s.Consistent) (hslot : s.slot? key = some slot)
    (he : s.entries[slot.entry]? = some e) {number : ℕ} {event : TableEvent}
    (he' : (s.next number event).entries[slot.entry]? = some e') :
    e'.usage = if s.looksAt key event then e.usage.sweep
      else if s.countsUse key event then e.usage.use else e.usage := by
  cases event with
  | lookup key' kind snapshots =>
    obtain rfl := Option.some.inj (he'.symm.trans (h.entry_lookup hslot he))
    rw [looksAt, if_neg Bool.false_ne_true]
    split_ifs <;> rfl
  | observe handle computed =>
    obtain rfl := Option.some.inj (he'.symm.trans (entry_observe he))
    rw [looksAt, countsUse, if_neg Bool.false_ne_true, if_neg Bool.false_ne_true]
    rcases s.handle? handle with - | o
    · rfl
    · rw [Option.elim_some]
      split_ifs
      · cases o <;> rfl
      · rfl
  | use handle =>
    obtain rfl := Option.some.inj (he'.symm.trans (entry_use hslot he))
    rw [looksAt, if_neg Bool.false_ne_true]
    split_ifs <;> rfl
  | drop handle =>
    obtain rfl := Option.some.inj (he'.symm.trans he)
    rfl
  | sweep kind =>
    obtain rfl := Option.some.inj (he'.symm.trans (h.entry_sweep hslot he kind))
    rw [looksAt, countsUse, hslot, Option.any_some, if_neg Bool.false_ne_true]
    split_ifs <;> rfl

/-- The counters of an entry say what has happened to a key: whether a use was counted since a sweep
looked last, and, as a word of half the width, how many sweeps in a row have found none. -/
structure Counted (options : CacheOptions) (key : Digest) (past : List TableEvent) (e : Entry) :
    Prop where
  /-- There are no uses since the last sweep exactly where none were counted. -/
  used : e.usage.sinceSweep = 0 ↔ usedSince options key past = false
  /-- The idle sweeps are those that the record inherits and its own. -/
  cooling : e.usage.cooling
    = HalfWord.wrap (inherited options key past + idleSweeps options key past)

/-- Nothing is idle as a record before there is a record. -/
theorem idleSweeps_of_adept {i : EntryId}
    (hslot : (after options past).slot? key = some (.adept i)) :
    idleSweeps options key past = 0 := by
  cases past with
  | nil => rfl
  | cons event past =>
    have hrecord : (after options past).hasRecord key = false := by
      rcases (after_consistent options past).slot_next hslot with ⟨hnone, -⟩ | hsame | ⟨j, -, hj, -⟩
      · rw [hasRecord, hnone, Option.any_none]
      · exact hasRecord_eq hsame
      · exact absurd hj (by simp)
    rw [idleSweeps, hrecord]
    rfl

/-- The counters go on to say what has happened. -/
theorem Counted.next (hc : Counted options key past e)
    (hslot : (after options past).slot? key = some slot)
    (he : (after options past).entries[slot.entry]? = some e) {event : TableEvent}
    (he' : (after options (event :: past)).entries[slot.entry]? = some e') :
    Counted options key (event :: past) e' := by
  have husage := (after_consistent options past).usage_next hslot he he'
  have hsome : ((after options past).slot? key).isSome := by rw [hslot]; rfl
  have hrecord := hasRecord_eq hslot
  have hadept : slot.isAdept = true → idleSweeps options key past = 0 := by
    intro hadept
    rcases slot with i | i
    · exact idleSweeps_of_adept hslot
    · exact absurd hadept Bool.false_ne_true
  have hcooling := hc.cooling
  rcases hlooks : (after options past).looksAt key event with - | -
  · -- Nothing looks at the uses, so at most one more is counted.
    rw [hlooks, if_neg Bool.false_ne_true] at husage
    constructor
    · rw [usedSince, hlooks, husage]
      rcases (after options past).countsUse key event with - | -
      · simpa using hc.used
      · simp [Usage.use]
    · have hsame : e'.usage.cooling = e.usage.cooling := by
        rw [husage]
        split_ifs <;> rfl
      rw [hsame, inherited, idleSweeps, hlooks, hrecord, if_pos hsome]
      rcases hslotAdept : slot.isAdept with - | -
      · simpa using hcooling
      · simpa [hadept hslotAdept] using hcooling
  · -- A sweep looks at the uses, and begins to count them anew.
    rw [hlooks, if_pos rfl] at husage
    constructor
    · rw [usedSince, hlooks, husage]
      simp
    · rw [husage, inherited, idleSweeps, hlooks, hrecord, if_pos hsome]
      rcases hused : usedSince options key past with - | -
      · have hidle : e.usage.sweep.cooling = HalfWord.wrap (e.usage.cooling + 1) :=
          if_pos (hc.used.2 hused)
        rw [hidle, hcooling, HalfWord.wrap_wrap_add]
        rcases hslotAdept : slot.isAdept with - | -
        · simp [Nat.add_assoc]
        · simp [hadept hslotAdept]
      · have hnonzero : e.usage.sinceSweep ≠ 0 := fun h => by
          have hunused := hc.used.1 h
          rw [hused] at hunused
          exact absurd hunused (by simp)
        have hidle : e.usage.sweep.cooling = 0 := if_neg hnonzero
        rw [hidle]
        simp

/-- The counters of what has a slot say what has happened. -/
theorem after_counted (hslot : (after options past).slot? key = some slot)
    (he : (after options past).entries[slot.entry]? = some e) : Counted options key past e := by
  induction past generalizing slot e with
  | nil => exact absurd hslot (by simp [after, slot?])
  | cons event past ih =>
    have h := after_consistent options past
    -- What had the slot before had the same entry.
    have hbefore {slot' : Slot} (hslot' : (after options past).slot? key = some slot')
        (hentry : slot'.entry = slot.entry) : Counted options key (event :: past) e := by
      obtain ⟨e', he', -⟩ := h.exists_entry hslot'
      exact (ih hslot' he').next hslot' he' (hentry ▸ he)
    rcases h.slot_next hslot with ⟨hnone, rfl, kind, snapshots, rfl⟩ | hsame | ⟨i, hadept, rfl, -⟩
    · -- What is new has been used once, by the lookup that inserted it.
      obtain rfl := Option.some.inj (he.symm.trans (h.entry_inserted hnone))
      constructor
      · rw [usedSince, h.countsUse_inserted hnone, looksAt]
        simp [Entry.use, Usage.use]
      · rw [inherited, idleSweeps, hasRecord, hnone]
        rfl
    · exact hbefore hsame rfl
    · exact hbefore hadept rfl

/-! ## Expiry -/

variable {i : EntryId}

/-- What a periodic sweep is told of a record are its idle sweeps and the inherited ones. -/
theorem Counted.idle (hc : Counted options key past e)
    (hslot : (after options past).slot? key = some (.cached i)) :
    e.usage.idle = toldIdle (inherited options key (.sweep .periodic :: past)
      + idleSweeps options key (.sweep .periodic :: past)) := by
  have hsome : ((after options past).slot? key).isSome := by rw [hslot]; rfl
  have hlooks : (after options past).looksAt key (.sweep .periodic) = true := by
    rw [looksAt, hslot]
    rfl
  rw [inherited, idleSweeps, hlooks, hasRecord_eq hslot, if_pos hsome]
  rcases hused : usedSince options key past with - | -
  · rw [Usage.idle, if_pos (hc.used.2 hused), hc.cooling]
    rfl
  · have hnonzero : e.usage.sinceSweep ≠ 0 := fun h => by
      have hunused := hc.used.1 h
      rw [hused] at hunused
      exact absurd hunused (by simp)
    rw [Usage.idle, if_neg hnonzero]
    rfl

/-- A sweep lets a record expire if it is periodic and is told of more idle sweeps than the options
allow. -/
theorem judge_eq_expire_iff (hslot : (after options past).slot? key = some (.cached i))
    (kind : SweepKind) :
    (after options past).table.judge kind (after options past).isHeld (after options past).entries
        (.cached i) = .expire
      ↔ kind = .periodic ∧ options.coolEnough
        < toldIdle (inherited options key (.sweep .periodic :: past)
          + idleSweeps options key (.sweep .periodic :: past)) := by
  obtain ⟨e, he, -⟩ := (after_consistent options past).exists_entry hslot
  have he : (after options past).entries[i]? = some e := he
  rw [← (after_counted hslot he).idle hslot, Table.judge_cached he, Table.isExpired, options_after]
  rcases kind with - | -
  · simp only [beq_self_eq_true, Bool.true_and, decide_eq_true_eq, true_and]
    by_cases hexpired : options.coolEnough < e.usage.idle
    · rw [if_pos hexpired]
      exact iff_of_true rfl hexpired
    · rw [if_neg hexpired]
      refine iff_of_false (fun hexpire => ?_) hexpired
      split_ifs at hexpire
  · have hanteroom : (SweepKind.anteroom == SweepKind.periodic) = false := rfl
    rw [hanteroom, Bool.false_and, if_neg Bool.false_ne_true]
    refine iff_of_false (fun hexpire => ?_) (fun hperiodic => absurd hperiodic.1 (by simp))
    split_ifs at hexpire

/-- Where nothing is inherited and the options allow for less than the largest word, a record that
is left has not been idle for too long. -/
theorem idleSweeps_le (hslot : (after options past).slot? key = some (.cached i))
    (hnothing : inherited options key past = 0) (hcool : options.coolEnough < HalfWord.max) :
    idleSweeps options key past ≤ options.coolEnough := by
  induction past with
  | nil => exact Nat.zero_le _
  | cons event past ih =>
    have h := after_consistent options past
    rcases h.slot_next hslot with ⟨-, hnew, -⟩ | hsame | ⟨j, hadept, -⟩
    · exact absurd hnew (by simp)
    · have hrecord : (after options past).hasRecord key = true := hasRecord_eq hsame
      have hsome : ((after options past).slot? key).isSome := by rw [hsame]; rfl
      rcases hlooks : (after options past).looksAt key event with - | -
      · rw [inherited, hlooks, if_pos hsome] at hnothing
        rw [idleSweeps, hrecord, hlooks]
        exact ih hsame hnothing
      · -- The sweep that looked was periodic, and did not let the record expire.
        cases event with
        | sweep kind =>
          obtain rfl : kind = .periodic := by
            rw [looksAt, hsame] at hlooks
            simpa [Table.resetsUsage] using hlooks
          have hword : idleSweeps options key (.sweep .periodic :: past) ≤ HalfWord.max := by
            rw [idleSweeps, hrecord, hlooks]
            rcases hused : usedSince options key past with - | -
            · rw [inherited, hlooks, if_pos hsome, hused, hrecord] at hnothing
              exact (Nat.succ_le_succ (ih hsame hnothing)).trans hcool
            · exact Nat.zero_le _
          rw [after, h.slot?_sweep, hsame, Option.bind_some] at hslot
          have hkept : (after options past).table.judge .periodic (after options past).isHeld
              (after options past).entries (.cached i) ≠ .expire := by
            intro hexpire
            rw [hexpire, Table.applyVerdict_expire] at hslot
            exact absurd hslot (Option.some_ne_none _).symm
          rw [Ne, judge_eq_expire_iff hsame, hnothing, Nat.zero_add, toldIdle_of_le hword] at hkept
          exact Nat.le_of_not_lt fun hlt => hkept ⟨rfl, hlt⟩
        | lookup key' kind snapshots => exact absurd hlooks Bool.false_ne_true
        | observe handle computed => exact absurd hlooks Bool.false_ne_true
        | use handle => exact absurd hlooks Bool.false_ne_true
        | drop handle => exact absurd hlooks Bool.false_ne_true
    · have hrecord : (after options past).hasRecord key = false := hasRecord_eq hadept
      rw [idleSweeps, hrecord]
      exact Nat.zero_le _

/-- A periodic sweep lets a record expire if it is told of more idle sweeps than the options allow:
of the idle sweeps in a row, itself included, and the inherited ones. Anteroom sweeps let none
expire. A record that inherits nothing expires at the first idle periodic sweep too many, unless the
options allow for the largest word of idle sweeps, in which case it stays. -/
theorem expires_iff (options : CacheOptions) (past : List TableEvent) (key : Digest) (i : EntryId)
    (hslot : (after options past).slot? key = some (.cached i)) :
    let s := after options past
    let verdict (kind : SweepKind) := s.table.judge kind s.isHeld s.entries (.cached i)
    let swept := .sweep .periodic :: past
    (verdict .periodic = .expire
        ↔ options.coolEnough
          < toldIdle (inherited options key swept + idleSweeps options key swept))
      ∧ verdict .anteroom ≠ .expire
      ∧ (inherited options key past = 0 →
        (verdict .periodic = .expire
          ↔ idleSweeps options key swept = options.coolEnough + 1
            ∧ options.coolEnough < HalfWord.max)) := by
  intro s verdict swept
  have hperiodic : verdict .periodic = .expire
      ↔ options.coolEnough
        < toldIdle (inherited options key swept + idleSweeps options key swept) :=
    (judge_eq_expire_iff hslot .periodic).trans (and_iff_right rfl)
  refine ⟨hperiodic, fun hexpire => ?_, fun hnothing => ?_⟩
  · exact absurd ((judge_eq_expire_iff hslot .anteroom).1 hexpire).1 (by simp)
  · have hlooks : s.looksAt key (.sweep .periodic) = true := by
      rw [looksAt, hslot]
      rfl
    have hrecord : s.hasRecord key = true := hasRecord_eq hslot
    have hstill : inherited options key swept = 0 := by
      rw [inherited, hlooks, hrecord, hnothing]
      split_ifs <;> rfl
    have hone : idleSweeps options key swept ≤ idleSweeps options key past + 1 := by
      rw [idleSweeps, hlooks, hrecord, if_pos rfl, if_pos rfl]
      split_ifs
      · exact Nat.zero_le _
      · exact Nat.le_refl _
    rw [hperiodic, hstill, Nat.zero_add]
    rcases Nat.lt_or_ge options.coolEnough HalfWord.max with hcool | hcool
    · have hle := idleSweeps_le hslot hnothing hcool
      rw [toldIdle_of_le (hone.trans ((Nat.succ_le_succ hle).trans hcool))]
      omega
    · -- No sweep is told of more than the largest word.
      have htold := toldIdle_le_max (idleSweeps options key swept)
      omega

/-- A run in which an adept is measured and promoted after some sweeps. -/
def promotedAfter (sweeps : List SweepKind) : List TableEvent :=
  let computed : Computed :=
    { cost := 1000, size := 10, snapshots := .word 1, payload := .sorted [] }
  .sweep .anteroom :: .observe 0 computed
    :: (sweeps.map TableEvent.sweep ++ [.lookup (.word 7) .sorted (.word 1)])

/-- A record whose adept was used until it was promoted expires after its own idle sweeps. -/
theorem expires_iff_promotedAfter :
    let options : CacheOptions := { coolEnough := 0, minimalUsage := 0 }
    let s := after options (promotedAfter [])
    s.table.judge .periodic s.isHeld s.entries (.cached 0) = .expire
      ∧ s.table.judge .anteroom s.isHeld s.entries (.cached 0) ≠ .expire := by
  intro options s
  obtain ⟨-, hanteroom, hexact⟩ :=
    expires_iff options (promotedAfter []) (.word 7) 0 (by cbv)
  exact ⟨(hexact (by cbv)).2 ⟨by cbv, by decide⟩, hanteroom⟩

/-- A record may expire at the first periodic sweep over it, although the options allow for an idle
one, because of the anteroom sweeps that ran while it was an adept. -/
theorem not_expires_iff_idle :
    let options : CacheOptions := { coolEnough := 1, minimalUsage := 0 }
    let past := promotedAfter [.anteroom, .anteroom]
    let s := after options past
    ¬∀ key i, s.slot? key = some (.cached i) →
      (s.table.judge .periodic s.isHeld s.entries (.cached i) = .expire
        ↔ idleSweeps options key (.sweep .periodic :: past) = options.coolEnough + 1) := by
  intro options past s hexact
  have hslot : s.slot? (.word 7) = some (.cached 0) := by cbv
  have hexpire : s.table.judge .periodic s.isHeld s.entries (.cached 0) = .expire := by cbv
  have hidle : idleSweeps options (.word 7) (.sweep .periodic :: past) = 1 := by cbv
  have htwo := (hexact (.word 7) 0 hslot).1 hexpire
  rw [hidle] at htwo
  exact absurd htwo (by decide)

end TableState

end EntityQuery
