import EntityQuery.Proofs.Sort.Places

/-!
# Sorting is slicing the full order

A chain never makes its full order. Each stage writes what falls into the window that it is given,
and hands on a window that is shifted by what it passed over and by what it wrote; the output has a
room of its own, and the chain stops as soon as nothing is wanted or left. `SorterChain.sort_spec`
shows that the outcome is the window of the full order all the same.

`SortContext.Fits` is the invariant of the stages: what is still wanted finds room, and once the
window is filled there is nothing to pass over. One stage keeps it (`SortContext.slicePart_fits`),
and moves the window along its own output (`SortContext.slicePart_window`).
-/

namespace EntityQuery

/-- A computation that goes on after one that gave a value. -/
theorem run_bind_of_ok {σ ε α β : Type} {x : ExceptT ε (StateM σ) α} {s s' : σ} {a : α}
    (h : x.run s = (.ok a, s')) (f : α → ExceptT ε (StateM σ) β) :
    (x >>= f).run s = (f a).run s' := by
  have hbind : (x >>= f).run s = ((ExceptT.bindCont f (x.run s).1).run (x.run s).2) := rfl
  rw [hbind, h]
  rfl

/-- A computation that was to go on after one that failed. -/
theorem run_bind_of_error {σ ε α β : Type} {x : ExceptT ε (StateM σ) α} {s s' : σ} {e : ε}
    (h : x.run s = (.error e, s')) (f : α → ExceptT ε (StateM σ) β) :
    (x >>= f).run s = (.error e, s') := by
  have hbind : (x >>= f).run s = ((ExceptT.bindCont f (x.run s).1).run (x.run s).2) := rfl
  rw [hbind, h]
  rfl

/-- A computation whose value is mapped. -/
theorem run_map_of_ok {σ ε α β : Type} {x : ExceptT ε (StateM σ) α} {s s' : σ} {a : α}
    (h : x.run s = (.ok a, s')) (f : α → β) : (f <$> x).run s = (.ok (f a), s') :=
  run_bind_of_ok h (pure ∘ f)

/-- A computation that goes on after a result that needs no state. -/
theorem run_map_lift {σ ε α β : Type} (x : Except ε α) (f : α → β) (s : σ) :
    ((liftM x : ExceptT ε (StateM σ) α) >>= fun a => pure (f a)).run s = (x.map f, s) := by
  rcases x with e | a
  · rfl
  · rfl

/-! ## Comparators in use -/

/-- The position of an entity for a comparator. -/
def Memory.position (m : Memory) (c : Comparator) (entity : ℕ) : Option ℕ :=
  m.placements[c.id]?.bind (·.positionOf entity)

/-- Whether a comparator is initialized for a set of entities: it has placed them by some order of
what they reference. -/
def Comparator.InitializedFor (c : Comparator) (m : Memory) (input : CandidateSet) : Prop :=
  ∃ order, m.placements[c.id]? = some (.ofOrder c.references order input)

/-- Whether the comparator of a sorter, if it has one, is initialized for a set of entities. -/
def Sorter.InitializedFor (s : Sorter) (m : Memory) (input : CandidateSet) : Prop :=
  ∀ c, s = .referenced c → c.InitializedFor m input

/-! ## One stage -/

namespace SortContext

/-- A window is filled when it ends where it starts, or before. -/
theorem isFilled_iff {c : SortContext} : c.isFilled = true ↔ c.stop ≤ c.start :=
  Iff.of_eq Nat.ble_eq

/-- What holds between two stages. -/
structure Fits (c : SortContext) (out : List ℕ) : Prop where
  /-- The window does not end before it starts. -/
  start_le : c.start ≤ c.stop
  /-- When the window is filled, no key before it is left. -/
  start_eq_zero : c.stop ≤ c.start → c.start = 0
  /-- The written keys are in the output. -/
  peak_le : c.peak ≤ out.length
  /-- What is still wanted finds room. -/
  room_le : min c.window c.keys.size ≤ c.room out

variable {c : SortContext} {ordered out : List ℕ}

/-- Where what is wanted finds room, the room limits nothing. -/
theorem written_eq (h : c.Fits out) (hlength : ordered.length ≤ c.keys.size) :
    c.written ordered out = (ordered.drop c.start).take c.window := by
  have hroom := h.room_le
  rw [written, List.take_eq_take_iff, List.length_drop]
  omega

/-- What is written follows what was written before. -/
theorem take_write (h : c.peak ≤ out.length) (keys : List ℕ) :
    (c.write keys out).take (c.peak + keys.length) = out.take c.peak ++ keys := by
  have hlength : (out.take c.peak ++ keys).length = c.peak + keys.length := by
    rw [List.length_append, List.length_take, min_eq_left h]
  rw [write, ← hlength, List.take_left]

/-- A stage that orders all keys is one that happens to leave none, as long as a key is wanted and
left. -/
theorem sliceAll_eq_slicePart (h : c.Fits out) (hperm : ordered.Perm c.keys.keys)
    (hkeys : c.keys.isEmpty = false) (hwanted : c.isFilled = false) :
    c.sliceAll ordered out = c.slicePart ordered out := by
  -- The two differ where the output has no room, but what is wanted finds room.
  have hroom : c.room out ≠ 0 := by
    have hsome : 0 < c.keys.size :=
      List.length_pos_iff.mpr (by simpa [CandidateSet.isEmpty] using hkeys)
    have hwindow : ¬c.stop ≤ c.start := by rw [← isFilled_iff, hwanted]; decide
    have hle := h.room_le
    unfold window at hle
    omega
  have hnodup : ordered.Nodup := hperm.nodup_iff.mpr c.keys.nodup_keys
  have hnone : c.keys.diff (.ofKeys ordered) = ∅ := by
    rw [CandidateSet.ext_iff_mem]
    intro k
    have hlisted : k ∈ ordered ↔ k ∈ c.keys := hperm.mem_iff
    simp [hlisted]
  simp only [sliceAll, slicePart, if_neg hroom, firstOccurrences_eq, eraseDups_of_nodup hnodup,
    hnone]

section

variable (h : c.Fits out) (hnodup : ordered.Nodup) (hmem : ∀ k ∈ ordered, k ∈ c.keys)

include hnodup hmem

/-- A stage emits no more keys than there are, and the others are left. -/
theorem length_add_size : ordered.length + (c.keys.without ordered).size = c.keys.size := by
  have hlength := (c.keys.perm_without hnodup hmem).length_eq
  rw [List.length_append] at hlength
  exact hlength

include h

/-- What a stage leaves, in terms of the keys that it orders. -/
theorem slicePart_eq : c.slicePart ordered out =
    { context := c.next (c.keys.without ordered) ((ordered.drop c.start).take c.window).length
        (ordered.take c.start).length
      out := c.write ((ordered.drop c.start).take c.window) out
      skipped := ordered.take c.start } := by
  have hsize := length_add_size hnodup hmem
  simp only [slicePart, firstOccurrences_eq, eraseDups_of_nodup hnodup, c.keys.diff_ofKeys,
    written_eq h (show ordered.length ≤ c.keys.size by omega)]

/-- After a stage, what is still wanted finds room. -/
theorem slicePart_fits :
    (c.slicePart ordered out).context.Fits (c.slicePart ordered out).out := by
  have hsize := length_add_size hnodup hmem
  have hwritten := length_out_write c ordered out
  obtain ⟨hstart, hzero, hpeak, hroom⟩ := h
  rw [written_eq ⟨hstart, hzero, hpeak, hroom⟩ (by omega)] at hwritten
  rw [slicePart_eq ⟨hstart, hzero, hpeak, hroom⟩ hnodup hmem]
  unfold window room at hroom
  constructor
  · exact le_max_right _ _
  · simp only [next, window, List.length_take, List.length_drop]
    omega
  · simp only [next, window, List.length_take, List.length_drop] at hwritten ⊢
    omega
  · simp only [next, window, room, List.length_take, List.length_drop] at hwritten ⊢
    omega

/-- A stage writes its part of the window, and leaves the rest of the window to what comes behind
its own keys. -/
theorem slicePart_window (rest : List ℕ) :
    (c.slicePart ordered out).out.take (c.slicePart ordered out).context.peak
        ++ (rest.drop (c.slicePart ordered out).context.start).take
            (c.slicePart ordered out).context.window
      = out.take c.peak ++ ((ordered ++ rest).drop c.start).take c.window := by
  rw [slicePart_eq h hnodup hmem]
  have hskipped : (ordered.take c.start).length ≤ c.start := List.length_take_le _ _
  rw [window_next c _ hskipped]
  simp only [next]
  rw [take_write h.peak_le, List.drop_append, List.take_append, List.append_assoc]
  have hstart : c.start - (ordered.take c.start).length = c.start - ordered.length := by
    rw [List.length_take]
    omega
  have hwindow : c.window - ((ordered.drop c.start).take c.window).length
      = c.window - (ordered.drop c.start).length := by
    rw [List.length_take]
    omega
  rw [hstart, hwindow]

/-- A stage passes over its part of the keys before the window. -/
theorem slicePart_skipped (rest : List ℕ) :
    (c.slicePart ordered out).skipped ++ rest.take (c.slicePart ordered out).context.start
      = (ordered ++ rest).take c.start := by
  rw [slicePart_eq h hnodup hmem, List.take_append]
  have hstart : c.start - (ordered.take c.start).length = c.start - ordered.length := by
    rw [List.length_take]
    omega
  simp only [next, hstart]

end

end SortContext

/-! ## The stages of a chain -/

/-- Positions are read from the places only. -/
theorem Memory.position_congr {m m' : Memory} (h : m'.placements = m.placements) :
    m'.position = m.position := by
  funext c k
  rw [position, position, h]

/-- Telling an observer of a first run places nothing. -/
theorem Memory.placements_report (m : Memory) (observer : Option Observer) (computed : Computed) :
    (m.report observer computed).placements = m.placements := by
  rcases observer with - | o
  · rfl
  · rfl

/-- Computing a merged order places nothing. -/
theorem MergedRecords.placements_visit (r : MergedRecords) (m : Memory) :
    (r.visit m).placements = m.placements := by
  unfold visit
  split_ifs
  · rfl
  · exact m.placements_report r.observer r.outcome

namespace Sorter

/-- A sorter slices what it emits, as long as a key is wanted and left. -/
theorem slice_run {s : Sorter} {m : Memory} {input : CandidateSet} {c : SortContext} {out : List ℕ}
    (hready : s.InitializedFor m input) (h : c.Fits out) (hkeys : c.keys.isEmpty = false)
    (hwanted : c.isFilled = false) :
    ∃ m', (s.slice c out).run m = (.ok (c.slicePart (s.emits m.position c.keys) out), m') ∧
      m'.placements = m.placements := by
  -- Stages that list a key again have it ignored, so they may as well not list it again.
  have hagain (listed : List ℕ) : c.slicePart listed out = c.slicePart listed.eraseDups out := by
    simp only [SortContext.slicePart, firstOccurrences_eq, eraseDups_of_nodup (nodup_eraseDups _)]
  match s with
  | primaryKey =>
    refine ⟨m, ?_, rfl⟩
    rw [emits, ← SortContext.sliceAll_eq_slicePart h (List.Perm.refl _) hkeys hwanted]
    rfl
  | reversedPrimaryKey =>
    refine ⟨m, ?_, rfl⟩
    rw [emits, ← SortContext.sliceAll_eq_slicePart h (List.reverse_perm _) hkeys hwanted]
    rfl
  | exact order =>
    refine ⟨m, ?_, rfl⟩
    rw [emits, ← hagain, ← CandidateSet.restrict_eq]
    rfl
  | preSorted records =>
    refine ⟨records.visit m, ?_, records.placements_visit m⟩
    rw [emits, ← hagain, ← CandidateSet.restrict_eq]
    rfl
  | external pairs =>
    -- Pairs of unknown keys are dropped before the others are sorted.
    refine ⟨m, ?_, rfl⟩
    have hknown : byExternal pairs c.keys
        = byRank (pairs.filter fun p => decide (p.1 ∈ c.keys)) := by
      have htable : (fun p : ℕ × ℕ => c.keys.table.contains p.1)
          = fun p => decide (p.1 ∈ c.keys) := by
        funext p
        rw [Bool.eq_iff_iff, CandidateSet.contains_table, decide_eq_true_iff]
      rw [← htable]
      rfl
    rw [emits, ← hagain, ← hknown]
    rfl
  | referenced comparator =>
    -- The places that were taken are those of some order, which is all that is needed of it.
    obtain ⟨order, hplaced⟩ := hready comparator rfl
    refine ⟨m, ?_, rfl⟩
    have hposition : m.position comparator
        = (Placement.ofOrder comparator.references order input).positionOf := by
      funext k
      rw [Memory.position, hplaced, Option.bind_some]
    have hplacement : comparator.placement m
        = .ok (Placement.ofOrder comparator.references order input) := by
      rw [Comparator.placement, hplaced]
    rw [emits, hposition, ← Placement.resolve_ofOrder]
    have hslice : (slice (referenced comparator) c out).run m
        = ((comparator.placement m).map fun p => c.slicePart (p.resolve c.keys) out, m) :=
      run_map_lift (comparator.placement m) _ m
    rw [hslice, hplacement]
    rfl

end Sorter

namespace SorterChain

/-- What sorters emit one after the other. -/
def emissions (position : Comparator → ℕ → Option ℕ) : List Sorter → CandidateSet → List ℕ
  | [], _ => []
  | s :: rest, keys =>
    s.emits position keys ++ emissions position rest (keys.without (s.emits position keys))

/-- The full order is what the sorters of the chain emit, the last of which emits all that is
left. -/
theorem emissions_sorters (position : Comparator → ℕ → Option ℕ) (chain : SorterChain)
    (keys : CandidateSet) :
    emissions position (sorters chain) keys = fullOrder position chain keys := by
  induction chain generalizing keys with
  | nil => exact List.append_nil _
  | cons stage rest ih => exact congrArg _ (ih _)

/-- Sorters emit nothing where no key is left. -/
theorem emissions_eq_nil (position : Comparator → ℕ → Option ℕ) (sorters : List Sorter)
    {keys : CandidateSet} (h : keys.isEmpty = true) : emissions position sorters keys = [] := by
  induction sorters generalizing keys with
  | nil => rfl
  | cons s rest ih =>
    have hnone : ∀ k, k ∉ keys := by
      intro k hk
      rw [CandidateSet.mem_iff, List.isEmpty_iff.mp h] at hk
      exact absurd hk List.not_mem_nil
    have hs : s.emits position keys = [] :=
      List.eq_nil_iff_forall_not_mem.mpr fun k hk => hnone k (s.mem_of_mem_emits position keys hk)
    have hleft : (keys.without (s.emits position keys)).isEmpty = true := by
      refine List.isEmpty_iff.mpr (List.eq_nil_iff_forall_not_mem.mpr fun k hk => ?_)
      exact hnone k (CandidateSet.mem_without.mp hk).1
    rw [emissions, ih hleft, hs, List.append_nil]

/-- How far one state of an order is ahead of another one: it has the keys of the window and those
before the window. -/
structure Sliced (order : List ℕ) (p q : SortContext.Progress) : Prop where
  /-- The keys of the window are written. -/
  written : q.out.take q.context.peak
    = p.out.take p.context.peak ++ (order.drop p.context.start).take p.context.window
  /-- The keys before the window are passed over. -/
  skipped : q.skipped = p.skipped ++ order.take p.context.start

/-- Where the window is filled or no key is left, an order is at its end. -/
theorem sliced_refl {position : Comparator → ℕ → Option ℕ} {sorters : List Sorter}
    {p : SortContext.Progress} (h : p.context.Fits p.out)
    (hdone : (p.context.keys.isEmpty || p.context.isFilled) = true) :
    Sliced (emissions position sorters p.context.keys) p p := by
  rcases Bool.or_eq_true _ _ ▸ hdone with hempty | hfilled
  · rw [emissions_eq_nil position sorters hempty]
    exact ⟨by simp, by simp⟩
  · rw [SortContext.isFilled_iff] at hfilled
    have hstart := h.start_eq_zero hfilled
    have hwindow : p.context.window = 0 := Nat.sub_eq_zero_of_le hfilled
    exact ⟨by simp [hwindow], by simp [hstart]⟩

/-- Sorters that run one after the other slice what they emit. -/
theorem run_sliced (sorters : List Sorter) {m : Memory} {input : CandidateSet}
    (hready : ∀ s ∈ sorters, s.InitializedFor m input) (p : SortContext.Progress)
    (h : p.context.Fits p.out) :
    ∃ q m', (run sorters p).run m = (.ok q, m') ∧ m'.placements = m.placements ∧
      Sliced (emissions m.position sorters p.context.keys) p q := by
  induction sorters generalizing m p with
  | nil => exact ⟨p, m, rfl, rfl, ⟨by simp [emissions], by simp [emissions]⟩⟩
  | cons s rest ih =>
    unfold run
    by_cases hdone : (p.context.keys.isEmpty || p.context.isFilled) = true
    · rw [if_pos hdone]
      exact ⟨p, m, rfl, rfl, sliced_refl h hdone⟩
    · rw [if_neg hdone]
      obtain ⟨hkeys, hwanted⟩ := Bool.or_eq_false_iff.mp (Bool.eq_false_of_not_eq_true hdone)
      obtain ⟨m₁, hslice, hplacements⟩ :=
        Sorter.slice_run (hready s List.mem_cons_self) h hkeys hwanted
      have hnodup := s.nodup_emits m.position p.context.keys
      have hmem : ∀ k ∈ s.emits m.position p.context.keys, k ∈ p.context.keys :=
        fun k hk => s.mem_of_mem_emits m.position p.context.keys hk
      -- The stage has left all comparators as they were.
      have hrest : ∀ s' ∈ rest, s'.InitializedFor m₁ input := by
        intro s' hs' c hc
        obtain ⟨order, horder⟩ := hready s' (List.mem_cons_of_mem s hs') c hc
        exact ⟨order, hplacements ▸ horder⟩
      rw [run_bind_of_ok hslice]
      -- What the stage leaves is what the other stages start from.
      generalize hleft : p.context.slicePart (s.emits m.position p.context.keys) p.out = left
      have hfits : left.context.Fits left.out := hleft ▸ SortContext.slicePart_fits h hnodup hmem
      have hkeys' : left.context.keys
          = p.context.keys.without (s.emits m.position p.context.keys) := by
        rw [← hleft, SortContext.slicePart_eq h hnodup hmem]
        rfl
      obtain ⟨q, m', hrun, hplacements', hsliced⟩ :=
        ih hrest { left with skipped := p.skipped ++ left.skipped } hfits
      refine ⟨q, m', hrun, hplacements'.trans hplacements, ?_, ?_⟩
      · rw [hsliced.written, emissions, Memory.position_congr hplacements, hkeys']
        have hwindow := SortContext.slicePart_window h hnodup hmem (emissions m.position rest
          (p.context.keys.without (s.emits m.position p.context.keys)))
        rw [hleft] at hwindow
        exact hwindow
      · rw [hsliced.skipped, emissions, Memory.position_congr hplacements, hkeys']
        have hskipped := SortContext.slicePart_skipped h hnodup hmem (emissions m.position rest
          (p.context.keys.without (s.emits m.position p.context.keys)))
        rw [hleft] at hskipped
        rw [← hskipped, List.append_assoc]

/-- The window of a list, cut where the list ends. -/
theorem take_drop_eq_extract (order : List ℕ) (start stop : ℕ) :
    (order.drop start).take (stop - start)
      = order.extract (min start order.length) (min stop order.length) := by
  rw [List.extract_eq_take_drop]
  rcases Nat.le_total start order.length with hle | hle
  · rw [min_eq_left hle, List.take_eq_take_iff, List.length_drop]
    omega
  · rw [min_eq_right hle, List.drop_eq_nil_of_le hle, List.drop_length, List.take_nil,
      List.take_nil]

/-- Before the first stage, the output has room for the window. -/
theorem ofWindow_fits (keys : CandidateSet) {start stop : ℕ} (h : start < stop) :
    (SortContext.ofWindow keys start stop).Fits
      (List.replicate (min (stop - start) keys.size) 0) where
  start_le := le_max_right _ _
  start_eq_zero hfilled := by
    have hstop : max stop start ≤ start := hfilled
    omega
  peak_le := Nat.zero_le _
  room_le := by
    simp only [SortContext.ofWindow, SortContext.window, SortContext.room, List.length_replicate]
    omega

/-- Whatever the window, a chain gives the keys of the full order that lie in it, passes over those
before it, and leaves all comparators as they are. -/
theorem sort_spec {m : Memory} {chain : SorterChain} {keys : CandidateSet}
    (hready : ∀ stage ∈ chain, stage.sorter.InitializedFor m keys) (start stop : ℕ) :
    ∃ skipped m', (chain.sort keys start stop).run m
        = (.ok ((fullOrder m.position chain keys).extract (min start keys.size)
            (min stop keys.size), skipped), m') ∧
      m'.placements = m.placements ∧
      (start < stop → skipped = (fullOrder m.position chain keys).take start) := by
  rw [← length_fullOrder m.position chain keys, ← take_drop_eq_extract]
  rcases Nat.lt_or_ge start stop with hlt | hge
  · have hsorters : ∀ s ∈ sorters chain, s.InitializedFor m keys := by
      intro s hs
      -- The last stage, which takes all that is left, needs no comparator.
      rcases List.mem_append.mp hs with hchain | hlast
      · obtain ⟨stage, hstage, rfl⟩ := List.mem_map.mp hchain
        exact hready stage hstage
      · rw [List.mem_singleton.mp hlast]
        exact fun c hc => nomatch hc
    obtain ⟨q, m', hrun, hplacements, hwritten, hskipped⟩ := run_sliced (sorters chain) hsorters
      { context := .ofWindow keys start stop
        out := List.replicate (min (stop - start) keys.size) 0
        skipped := [] } (ofWindow_fits keys hlt)
    have hwindow : (SortContext.ofWindow keys start stop).window = stop - start := by
      rw [SortContext.window, SortContext.ofWindow, max_eq_left hlt.le]
    simp only [emissions_sorters, hwindow] at hwritten hskipped
    refine ⟨q.skipped, m', ?_, hplacements, fun _ => hskipped⟩
    unfold sort
    rw [run_bind_of_ok hrun, hwritten]
    rfl
  · -- In an empty window nothing is written, and no stage is run.
    refine ⟨[], m, ?_, rfl, fun hlt => absurd hlt (not_lt.mpr hge)⟩
    rw [sort_of_filled hge, Nat.sub_eq_zero_of_le hge, List.take_zero]
    rfl

/-- A chain orders every key of a set once, and for any window it gives the keys of that order that
lie in the window. Where a key is left and wanted, it passes over the keys before the window. -/
theorem sort_eq_slice {m : Memory} {chain : SorterChain} {keys : CandidateSet}
    (hready : ∀ stage ∈ chain, stage.sorter.InitializedFor m keys) (start stop : ℕ) :
    (fullOrder m.position chain keys).Perm keys.keys ∧
      ∃ skipped, ((chain.sort keys start stop).run m).1
          = .ok ((fullOrder m.position chain keys).extract (min start keys.size)
              (min stop keys.size), skipped) ∧
        (start < stop → keys.isEmpty = false →
          skipped = (fullOrder m.position chain keys).take (min start keys.size)) := by
  obtain ⟨skipped, m', hrun, -, hskipped⟩ := sort_spec hready start stop
  refine ⟨fullOrder_perm _ _ _, skipped, congrArg Prod.fst hrun, fun hlt _ => ?_⟩
  rw [hskipped hlt, ← length_fullOrder m.position chain keys, List.take_eq_take_iff]
  omega

/-- A window over the end of an explicit order and the start of an order by reference. -/
theorem sort_eq_slice_across_stages :
    let brand : Comparator := ⟨0, "brand", .empty (Formula.emptyProfile 0), [], [(20, 5), (40, 7)]⟩
    let keys : CandidateSet := ⟨[10, 20, 30, 40], by decide⟩
    let m : Memory := brand.place [7, 5] keys {}
    let chain : SorterChain := [⟨"listed", .exact [30, 10, 30]⟩, ⟨"brand", .referenced brand⟩]
    (∀ stage ∈ chain, stage.sorter.InitializedFor m keys) ∧
      (fullOrder m.position chain keys).Perm keys.keys ∧
      ∃ skipped, ((chain.sort keys 1 3).run m).1
          = .ok ((fullOrder m.position chain keys).extract (min 1 keys.size) (min 3 keys.size),
              skipped) ∧
        (1 < 3 → keys.isEmpty = false →
          skipped = (fullOrder m.position chain keys).take (min 1 keys.size)) := by
  intro brand keys m chain
  have hready : ∀ stage ∈ chain, stage.sorter.InitializedFor m keys := by
    intro stage hstage c hc
    have hbrand : stage = ⟨"brand", .referenced brand⟩ := by
      rcases List.mem_cons.mp hstage with rfl | hlast
      · exact nomatch hc
      · exact List.mem_singleton.mp hlast
    subst hbrand
    obtain rfl : brand = c := Sorter.referenced.inj hc
    exact ⟨[7, 5], Std.HashMap.getElem?_insert_self⟩
  exact ⟨hready, sort_eq_slice hready 1 3⟩

end SorterChain

end EntityQuery
