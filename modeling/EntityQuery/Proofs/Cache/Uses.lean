import EntityQuery.Proofs.Cache.Expiry
import EntityQuery.Proofs.Cache.Recorded

/-!
# Uses and what is discarded

The counters of an entry go along with it when its adept is promoted, and lookups and handles find
the entry that has the slot. So the counter of all uses is the number of uses since the key was
inserted: lookups that were not stale, and uses through the handles that were given out for the key
since then. The counter of recent uses is zero for an adept exactly when there was no use since the
last sweep of either kind.

A sweep drops an adept that it does not promote only where nobody uses or holds it, and where it is
not worth a place or does not fit beside the records that rank before it
(`TableState.uses_kept`).
-/

namespace EntityQuery

namespace TableState

/-- Whether the latest of some events is a sweep. -/
def sweeps : List TableEvent → Bool
  | .sweep _ :: _ => true
  | _ => false

/-- What a slot competes with for room: its key, and the ratio and the size of its entry. -/
def contender (s : TableState) (p : Digest × Slot) : Candidate where
  key := p.1
  entry := p.2.entry
  ratio := (s.entries[p.2.entry]?.bind (·.ratio? s.table.options.minimalUsage)).getD 0
  size := bytesAt s.entries p.2.entry

/-- The bytes that the records take which rank before a candidate. -/
def bytesAhead (s : TableState) (c : Candidate) : ℕ :=
  (((s.table.slots.filter (!·.2.isAdept)).map s.contender).filter (·.ranksBefore c)
    |>.map Candidate.size).sum

variable (options : CacheOptions) (key : Digest)

/-- Whether an event uses what is followed under a key since it was inserted: as a lookup that is
not stale, or through a handle that was given out for the key since then and is held. -/
def isUse (past : List TableEvent) : TableEvent → Bool
  | .lookup key' kind snapshots =>
    key' = key && !((after options past).answer key' kind snapshots).isStale
  | .use handle =>
    handle ∈ handlesSince key (inserts options key) past
      && ((after options past).handle? handle).isSome
  | .observe _ _ | .drop _ | .sweep _ => false

/-- How many uses there were since something began, with the event that it began with. -/
def usesSince (begins : List TableEvent → Bool) : List TableEvent → ℕ
  | [] => 0
  | event :: past =>
    (if begins (event :: past) then 0 else usesSince begins past)
      + (isUse options key past event).toNat

variable {options key} {past : List TableEvent} {event : TableEvent} {slot : Slot} {e : Entry}
  {i : EntryId}

/-! ## Counted uses -/

/-- The uses that are counted in the entry of a key are those since the key was inserted. -/
theorem countsUse_eq_isUse (hslot : (after options past).slot? key = some slot)
    (event : TableEvent) :
    (after options past).countsUse key event = isUse options key past event := by
  cases event with
  | use handle =>
    rw [countsUse_use, isUse]
    rcases ho : (after options past).handle? handle with - | o
    · simp
    · have hmem : (handle, o) ∈ (after options past).handles := mem_of_handle?_eq_some ho
      have hiff := mem_handlesSince_iff (stage_inserts options key fun _ => true) hslot trivial hmem
        rfl
      rw [Option.any_some, hslot, Option.any_some, Option.isSome_some, Bool.and_true,
        Bool.eq_iff_iff, decide_eq_true_eq, hiff, beq_iff_eq, eq_comm]
  | lookup key' kind snapshots => rfl
  | observe handle computed => rfl
  | drop handle => rfl
  | sweep kind => rfl

/-- A lookup that inserts a key uses it. -/
theorem isUse_inserted (hnew : (after options past).slot? key = none) (kind : RecordKind)
    (snapshots : Digest) : isUse options key past (.lookup key kind snapshots) = true :=
  (after_consistent options past).countsUse_inserted hnew

/-- A sweep uses nothing. -/
theorem isUse_of_looksAt {s : TableState} (h : s.looksAt key event = true) :
    isUse options key past event = false := by
  cases event with
  | sweep kind => rfl
  | lookup key' kind snapshots => exact absurd h Bool.false_ne_true
  | observe handle computed => exact absurd h Bool.false_ne_true
  | use handle => exact absurd h Bool.false_ne_true
  | drop handle => exact absurd h Bool.false_ne_true

/-- What an event does to the counters of an entry with a slot. -/
theorem usage_after (hslot : (after options past).slot? key = some slot)
    (he : (after options past).entries[slot.entry]? = some e) {e' : Entry}
    (he' : (after options (event :: past)).entries[slot.entry]? = some e') :
    e'.usage.times = e.usage.times + (isUse options key past event).toNat
      ∧ e'.usage.sinceSweep = if (after options past).looksAt key event then 0
        else e.usage.sinceSweep + (isUse options key past event).toNat := by
  have husage := (after_consistent options past).usage_next hslot he he'
  rw [countsUse_eq_isUse hslot] at husage
  rw [husage]
  rcases hlooks : (after options past).looksAt key event with - | -
  · rcases isUse options key past event with - | - <;> exact ⟨rfl, rfl⟩
  · rw [isUse_of_looksAt hlooks]
    exact ⟨rfl, rfl⟩

/-- The counter of all uses is the number of uses since the key was inserted. -/
theorem times_eq_usesSince (hslot : (after options past).slot? key = some slot)
    (he : (after options past).entries[slot.entry]? = some e) :
    e.usage.times = usesSince options key (inserts options key) past := by
  induction past generalizing slot e with
  | nil => exact absurd hslot (by simp [after, slot?])
  | cons event past ih =>
    have h := after_consistent options past
    -- What had the slot before had the same entry, which was used by the event at most once.
    have hbefore {slot' : Slot} (hslot' : (after options past).slot? key = some slot')
        (hentry : slot'.entry = slot.entry) :
        e.usage.times = usesSince options key (inserts options key) (event :: past) := by
      obtain ⟨e', he', -⟩ := h.exists_entry hslot'
      have hinserts : inserts options key (event :: past) = false := by
        rw [inserts, hslot']
        rfl
      rw [usesSince, hinserts, (usage_after hslot' he' (hentry ▸ he)).1, ih hslot' he']
      rfl
    rcases h.slot_next hslot with ⟨hnone, rfl, kind, snapshots, rfl⟩ | hsame | ⟨i, hadept, rfl, -⟩
    · obtain rfl := Option.some.inj (he.symm.trans (h.entry_inserted hnone))
      have hinserts : inserts options key (.lookup key kind snapshots :: past) = true := by
        rw [inserts, hnone, hslot]
        rfl
      rw [usesSince, hinserts, isUse_inserted hnone]
      rfl
    · exact hbefore hsame rfl
    · exact hbefore hadept rfl

/-- An adept has no recent use exactly where there was none since the last sweep. -/
theorem sinceSweep_eq_zero_iff (hslot : (after options past).slot? key = some (.adept i))
    (he : (after options past).entries[i]? = some e) :
    e.usage.sinceSweep = 0 ↔ usesSince options key sweeps past = 0 := by
  induction past generalizing i e with
  | nil => exact absurd hslot (by simp [after, slot?])
  | cons event past ih =>
    have h := after_consistent options past
    rcases h.slot_next hslot with ⟨hnone, hi, kind, snapshots, rfl⟩ | hsame | ⟨j, -, hj, -⟩
    · -- The lookup that inserted the key has used it.
      obtain rfl := Slot.adept.inj hi
      obtain rfl := Option.some.inj (he.symm.trans (h.entry_inserted hnone))
      rw [usesSince, isUse_inserted hnone]
      exact iff_of_false (Nat.succ_ne_zero _) (Nat.succ_ne_zero _)
    · obtain ⟨e', he', -⟩ := h.exists_entry hsame
      have hlooks : (after options past).looksAt key event = sweeps (event :: past) := by
        cases event with
        | sweep kind =>
          rw [looksAt, hsame]
          rfl
        | lookup key' kind snapshots => rfl
        | observe handle computed => rfl
        | use handle => rfl
        | drop handle => rfl
      rw [(usage_after hsame he' he).2, usesSince, ← hlooks]
      rcases hsweeps : (after options past).looksAt key event with - | -
      · rw [if_neg Bool.false_ne_true, if_neg Bool.false_ne_true, Nat.add_eq_zero_iff,
          Nat.add_eq_zero_iff, ih hsame he']
      · rw [isUse_of_looksAt hsweeps]
        exact iff_of_true rfl rfl
    · exact absurd hj (by simp)

/-! ## What a sweep discards -/

/-- An adept is gone after an event only where a sweep discarded it. -/
theorem exists_sweep_of_gone (hslot : (after options past).slot? key = some (.adept i))
    (hgone : (after options (event :: past)).slot? key = none) :
    ∃ kind, event = .sweep kind
      ∧ (after options past).table.judge kind (after options past).isHeld
          (after options past).entries (.adept i) = .discard := by
  have h := after_consistent options past
  cases event with
  | lookup key' kind snapshots =>
    rw [after, h.slot?_lookup, hslot] at hgone
    split_ifs at hgone
  | observe handle computed => exact absurd (hslot.symm.trans hgone) (Option.some_ne_none _)
  | use handle => exact absurd (hslot.symm.trans hgone) (Option.some_ne_none _)
  | drop handle => exact absurd (hslot.symm.trans hgone) (Option.some_ne_none _)
  | sweep kind =>
    refine ⟨kind, rfl, ?_⟩
    rw [after, h.slot?_sweep, hslot, Option.bind_some] at hgone
    have hne := Table.judge_adept_ne (after options past).table kind (after options past).isHeld
      (after options past).entries i
    rcases hjudge : (after options past).table.judge kind (after options past).isHeld
      (after options past).entries (.adept i) with - | - | - | - | -
    · rw [hjudge] at hgone
      exact absurd hgone (Option.some_ne_none _)
    · rw [hjudge] at hgone
      exact absurd hgone (Option.some_ne_none _)
    · exact absurd hjudge hne.1
    · exact absurd hjudge hne.2
    · rfl

section Room

variable {s : TableState} {number : ℕ} {kind : SweepKind}

/-- A sweep leaves alone what a slot competes with. -/
theorem Consistent.contender_sweep (h : s.Consistent) (number : ℕ) (kind : SweepKind)
    (p : Digest × Slot) : (s.next number (.sweep kind)).contender p = s.contender p := by
  have hreset := Table.getElem?_resetEntries h.nodup_entries kind s.entries p.2.entry
  have hentries : (s.next number (.sweep kind)).entries = s.table.resetEntries kind s.entries := rfl
  have hoptions : (s.next number (.sweep kind)).table.options = s.table.options := rfl
  simp only [contender, bytesAt, hentries, hoptions, hreset]
  split_ifs
  · rcases s.entries[p.2.entry]? with - | e <;> rfl
  · rfl

/-- A slot is a candidate with what it competes with after the sweep. -/
theorem Consistent.eq_contender_of_candidate? (h : s.Consistent) {before : Slot} {c : Candidate}
    (hc : s.table.candidate? kind s.entries key before = some c)
    (hentry : slot.entry = before.entry) (number : ℕ) :
    c = (s.next number (.sweep kind)).contender (key, slot) := by
  unfold Table.candidate? at hc
  simp only [bind, Option.bind_eq_some_iff] at hc
  obtain ⟨e, he, m, hm, ratio, hratio, hc⟩ := hc
  have hcontender : s.contender (key, slot) = ⟨key, before.entry, ratio, m.size⟩ := by
    rw [contender, bytesAt, hentry, he, Option.bind_some, hratio, Option.getD_some,
      Option.elim_some, Entry.size, hm, Option.elim_some]
  rw [h.contender_sweep, hcontender]
  rcases before with j | j
  · exact (Option.some.inj (Option.ite_none_right_eq_some.1 hc).2).symm
  · exact (Option.some.inj (Option.ite_none_left_eq_some.1 hc).2).symm

/-- An adept that is worth it is a candidate. -/
theorem exists_candidate (he : s.entries[i]? = some e)
    (hworth : e.isWorth s.table.options = true) (kind : SweepKind) (key : Digest) :
    ∃ c, s.table.candidate? kind s.entries key (.adept i) = some c := by
  obtain ⟨m, hm, -⟩ := (Option.any_eq_true _ _).1 hworth
  have he : s.entries[(Slot.adept i).entry]? = some e := he
  simp only [Table.candidate?, he, hm, Entry.ratio?, bind, Option.bind_some, Option.map_some]
  exact ⟨_, if_pos hworth⟩

/-- A candidate that is let in is what a record competes with after the sweep. -/
theorem Consistent.mem_contenders (h : s.Consistent) {c : Candidate}
    (hc : c ∈ s.table.slots.filterMap fun q =>
      s.table.candidate? kind s.entries q.1 q.2)
    (hin : c.entry ∈ (s.table.admission kind s.entries).entries) (number : ℕ) :
    let swept := s.next number (.sweep kind)
    c ∈ (swept.table.slots.filter (!·.2.isAdept)).map swept.contender := by
  intro swept
  obtain ⟨q, hq, hcandidate⟩ := List.mem_filterMap.1 hc
  have hentry := (Table.candidate?_eq_some hcandidate).1
  have hcached : Table.applyVerdict q.2 (s.table.judge kind s.isHeld s.entries q.2)
      = some (.cached c.entry) :=
    (Table.applyVerdict_judge_eq_cached h.nodup_entries h.entry_lt hq c.entry).2
      ⟨hentry.symm, hin⟩
  have hslot : (q.1, Slot.cached c.entry) ∈ swept.table.slots := by
    show _ ∈ (s.table.sweep kind s.isHeld s.entries).2.1.slots
    rw [Table.slots_sweep]
    exact List.mem_filterMap.2 ⟨q, hq, by rw [hcached]; rfl⟩
  have hcontender : c = swept.contender (q.1, .cached c.entry) :=
    have hentry : (Slot.cached c.entry).entry = q.2.entry := hentry
    h.eq_contender_of_candidate? hcandidate hentry number
  exact List.mem_map.2 ⟨_, List.mem_filter.2 ⟨hslot, rfl⟩, hcontender.symm⟩

/-- An adept that is worth it and is not let in does not fit beside the records that rank before
it. -/
theorem Consistent.cacheSize_lt (h : s.Consistent) (hslot : s.slot? key = some (.adept i))
    (he : s.entries[i]? = some e) (hworth : e.isWorth s.table.options = true)
    (hout : i ∉ (s.table.admission kind s.entries).entries) (number : ℕ) :
    let swept := s.next number (.sweep kind)
    let c := swept.contender (key, .adept i)
    s.table.options.cacheSize < swept.bytesAhead c + c.size := by
  intro swept c
  obtain ⟨c', hc⟩ := exists_candidate he hworth kind key
  obtain rfl : c' = c := h.eq_contender_of_candidate? hc rfl number
  have hcandidate : c ∈ s.table.slots.filterMap fun q =>
      s.table.candidate? kind s.entries q.1 q.2 :=
    List.mem_filterMap.2 ⟨_, h.slot?_eq_some_iff.1 hslot, hc⟩
  obtain ⟨better, hbetter, hahead, hbudget⟩ := Admission.budget_lt_of_not_mem hcandidate hout
  -- Those that were let in are records after the sweep, and no two of them are the same.
  have hnodup : better.Nodup := by
    obtain ⟨sorted, hsorted, hsublist⟩ := hbetter
    have hcandidates :=
      h.nodup_entries.sublist (s.table.entries_candidates_sublist kind s.entries)
    exact hsorted.nodup_iff.1 ((List.Nodup.of_map _ hcandidates).sublist hsublist)
  have hsubset : better ⊆ ((swept.table.slots.filter (!·.2.isAdept)).map swept.contender).filter
      (·.ranksBefore c) := by
    intro b hb
    obtain ⟨hranks, hin⟩ := hahead b hb
    exact List.mem_filter.2 ⟨h.mem_contenders (hbetter.subset hb) hin number, hranks⟩
  have hsum : (better.map Candidate.size).sum ≤ swept.bytesAhead c := by
    obtain ⟨sorted, hsorted, hsublist⟩ := hnodup.subperm hsubset
    rw [← (hsorted.map Candidate.size).sum_eq]
    exact (hsublist.map Candidate.size).sum_le_sum fun _ _ => Nat.zero_le _
  omega

end Room

/-- An adept that a sweep discards was not used since the last sweep, and nobody holds it. -/
theorem unused_of_discard (hslot : (after options past).slot? key = some (.adept i))
    {kind : SweepKind} (hdiscard : (after options past).table.judge kind (after options past).isHeld
      (after options past).entries (.adept i) = .discard) :
    i ∉ ((after options past).table.admission kind (after options past).entries).entries
      ∧ usesSince options key sweeps past = 0
      ∧ ∀ handle ∈ handlesSince key (inserts options key) past,
        (after options past).handle? handle = none := by
  have h := after_consistent options past
  obtain ⟨e, he, -⟩ := h.exists_entry hslot
  have he : (after options past).entries[i]? = some e := he
  rw [Table.judge_adept he] at hdiscard
  split_ifs at hdiscard with hin hidle
  rw [Bool.and_eq_true, Bool.not_eq_true'] at hidle
  obtain ⟨hidle, hheld⟩ := hidle
  have hunused := Table.sinceSweep_eq_zero_of_isIdle hidle
  refine ⟨hin, (sinceSweep_eq_zero_iff hslot he).1 hunused, fun handle hhandle => ?_⟩
  · by_contra hsome
    obtain ⟨o, ho⟩ := Option.ne_none_iff_exists'.1 hsome
    have hmem : (handle, o) ∈ (after options past).handles := mem_of_handle?_eq_some ho
    have hentry := (mem_handlesSince_iff (stage_inserts options key fun _ => true) hslot trivial
      hmem rfl).1 hhandle
    -- A handle that leads to an adept is one that holds it.
    have hadept : o = .adept i := by
      rcases o with j | j
      · exact congrArg _ hentry
      · obtain rfl : j = i := hentry
        exact absurd (h.slot?_eq_some_iff.1 hslot) (h.recording _ hmem rfl key)
    have hholds : (after options past).isHeld i = true :=
      List.any_eq_true.2 ⟨_, hmem, by simp [hadept]⟩
    rw [hholds] at hheld
    exact absurd hheld (by simp)

/-- No use is lost: what has the slot of a key counts the uses since the key was inserted. And no
adept in use is dropped: an adept is gone only after a sweep, where it was not used since the last
one, no handle to it is held, and it is not worth it or does not fit beside the records that rank
before it. -/
theorem uses_kept (options : CacheOptions) (past : List TableEvent) (key : Digest) :
    let s := after options past
    (∀ slot, s.slot? key = some slot → ∃ e, s.entries[slot.entry]? = some e
        ∧ e.usage.times = usesSince options key (inserts options key) past)
      ∧ ∀ i event, s.slot? key = some (.adept i) →
        (after options (event :: past)).slot? key = none →
          (∃ kind, event = .sweep kind)
            ∧ usesSince options key sweeps past = 0
            ∧ (∀ handle ∈ handlesSince key (inserts options key) past, s.handle? handle = none)
            ∧ ∃ e, s.entries[i]? = some e
              ∧ (e.isWorth options = true →
                let swept := after options (event :: past)
                let c := swept.contender (key, .adept i)
                options.cacheSize < swept.bytesAhead c + c.size) := by
  intro s
  have h : s.Consistent := after_consistent options past
  refine ⟨fun slot hslot => ?_, fun i event hslot hgone => ?_⟩
  · obtain ⟨e, he, -⟩ := h.exists_entry hslot
    exact ⟨e, he, times_eq_usesSince hslot he⟩
  · obtain ⟨kind, rfl, hdiscard⟩ := exists_sweep_of_gone hslot hgone
    obtain ⟨hout, hunused, hfree⟩ := unused_of_discard hslot hdiscard
    obtain ⟨e, he, -⟩ := h.exists_entry hslot
    have hoptions : s.table.options = options := options_after options past
    refine ⟨⟨kind, rfl⟩, hunused, hfree, e, he, fun hworth => ?_⟩
    have hroom := h.cacheSize_lt hslot he (hoptions.symm ▸ hworth) hout past.length
    rw [hoptions] at hroom
    exact hroom

/-- A run in which a record is used through the handle to its former adept, while another adept is
measured, not promoted and dropped. -/
def idleAdept (key other : Digest) : List TableEvent :=
  let computed (cost : ℕ) : Computed :=
    { cost, size := 10, snapshots := .word 1, payload := .sorted [] }
  [.drop 2, .use 0, .sweep .anteroom, .observe 2 (computed 100), .lookup other .sorted (.word 1),
    .observe 0 (computed 200), .lookup key .sorted (.word 1)]

/-- The record was used twice, and there is no room beside it for the other adept. -/
theorem uses_kept_idleAdept :
    let options : CacheOptions := { cacheSize := 100, minimalUsage := 0 }
    let past := idleAdept (.word 7) (.word 8)
    let swept := after options (.sweep .anteroom :: past)
    usesSince options (.word 7) (inserts options (.word 7)) past = 2
      ∧ usesSince options (.word 8) sweeps past = 0
      ∧ (∀ handle ∈ handlesSince (.word 8) (inserts options (.word 8)) past,
        (after options past).handle? handle = none)
      ∧ 100 < swept.bytesAhead (swept.contender (.word 8, .adept 1)) + 74 := by
  intro options past swept
  obtain ⟨e, he, htimes⟩ := (uses_kept options past (.word 7)).1 (.cached 0) (by cbv)
  obtain ⟨-, hunused, hfree, e', he', hroom⟩ :=
    (uses_kept options past (.word 8)).2 1 (.sweep .anteroom) (by cbv) (by cbv)
  have htwo : (after options past).entries[0]?.map (·.usage.times) = some 2 := by cbv
  have hworth : (after options past).entries[1]?.map (Entry.isWorth options) = some true := by cbv
  have hsize : (swept.contender (.word 8, .adept 1)).size = 74 := by cbv
  have he : (after options past).entries[0]? = some e := he
  rw [he, Option.map_some] at htwo
  rw [he', Option.map_some] at hworth
  refine ⟨htimes.symm.trans (Option.some.inj htwo), hunused, hfree, ?_⟩
  have hfull := hroom (Option.some.inj hworth)
  dsimp only at hfull
  rw [hsize] at hfull
  exact hfull

end TableState

end EntityQuery
