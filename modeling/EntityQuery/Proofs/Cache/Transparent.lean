import EntityQuery.Proofs.Cache.Analysed

/-!
# Transparent caches

A cache is used over a long time: computations of many queries are analysed, what came out is run at
once, later or never, indexes move on to other versions in between, and sweeps promote and evict.
Such a history keeps for each computation that was analysed what was put in its place
(`CacheHistory`). Whatever happened, the two compute the same
(`CacheHistory.Reachable.compute_analysed_eq`).

What is assumed is that a version of an index has one content, and that what is analysed is built as
it should be and reads no index at two versions (`Computation.Admissible`). What was put in the
place of a computation is admissible in turn, at any later time (`Reachable.admissible_analysed`),
so it may be run, be analysed again, or become a part of other computations.
-/

namespace EntityQuery

/-- Something that happens to a cache. -/
inductive CacheEvent where
  /-- A computation is analysed. -/
  | analyse (scope : Scope) (x : Computation)
  /-- A computation is run. -/
  | compute (x : Computation)
  /-- The cache is swept. `held` tells which adepts somebody else than the cache holds. -/
  | sweep (kind : SweepKind) (held : EntryId → Bool)
  /-- The memory is used for something that does not touch the cache. -/
  | elsewhere (memory : Memory)

/-- A cache, with the computations that were analysed and what was put in the place of each. -/
structure CacheHistory where
  workspace : Workspace
  analysed : List (Computation × Computation)

namespace CacheHistory

/-- The entries of the cache. -/
def entries (h : CacheHistory) : Entries := h.workspace.memory.entries

/-- The history after one more event. -/
def next (h : CacheHistory) : CacheEvent → CacheHistory
  | .analyse scope x =>
    let r := (x.analyse scope).run h.workspace
    ⟨r.2, (x, r.1) :: h.analysed⟩
  | .compute x => { h with workspace.memory := (x.compute h.workspace.memory).2 }
  | .sweep kind held => { h with workspace := ((Workspace.sweep kind held).run h.workspace).2 }
  | .elsewhere memory => { h with workspace.memory := memory }

/-- A computation that was analysed is kept with what was put in its place. -/
theorem mem_analysed_next (h : CacheHistory) (scope : Scope) (x : Computation) :
    (x, ((x.analyse scope).run h.workspace).1) ∈ (h.next (.analyse scope x)).analysed :=
  List.mem_cons_self

/-- Whatever happens, what was analysed is kept. -/
theorem subset_analysed_next (h : CacheHistory) (event : CacheEvent) :
    h.analysed ⊆ (h.next event).analysed := by
  rcases event with ⟨scope, x⟩ | x | ⟨kind, held⟩ | memory
  · exact List.subset_cons_self _ _
  all_goals exact List.Subset.refl _

/-- What may happen to a cache, over indexes with some contents. -/
def Allows (C : Contents) (h : CacheHistory) : CacheEvent → Prop
  | .analyse _ x | .compute x => x.Admissible C h.entries
  | .sweep _ _ => True
  | .elsewhere memory => memory.entries = h.entries

/-- The histories of a cache that was made with some options. -/
inductive Reachable (C : Contents) (options : CacheOptions) : CacheHistory → Prop
  /-- The cache is made. -/
  | start {supervisor : Supervisor} {memory : Memory}
    (hsupervisor : Supervisor.ofOptions options = .ok supervisor) (hmemory : memory.entries = #[]) :
    Reachable C options ⟨⟨supervisor, memory⟩, []⟩
  /-- Something happens. -/
  | step {h : CacheHistory} (hh : Reachable C options h) {event : CacheEvent}
    (hevent : h.Allows C event) : Reachable C options (h.next event)

variable {C : Contents} {options : CacheOptions} {h : CacheHistory}

/-- What all histories have in common: the cache is faithful, and what was put in the place of a
computation can still take its place. -/
structure Sound (C : Contents) (h : CacheHistory) : Prop where
  /-- The cache is faithful. -/
  faithful : h.workspace.Faithful C
  /-- What was put in the place of a computation takes its place. -/
  analysed : ∀ p ∈ h.analysed, p.1.StandsFor C h.entries p.2

/-- A history stays sound when the cache stays faithful, the entries keep their keys, and what is
put in the place of more computations takes their place. -/
theorem Sound.of_keeps {h' : CacheHistory} (hs : h.Sound C) (hfaithful : h'.workspace.Faithful C)
    (hkeep : Entries.Keeps h.entries h'.entries)
    (hanalysed : ∀ p ∈ h'.analysed, p ∈ h.analysed ∨ p.1.StandsFor C h'.entries p.2) :
    h'.Sound C := by
  refine ⟨hfaithful, fun p hp => ?_⟩
  rcases hanalysed p hp with hold | hnew
  · exact (hs.analysed p hold).mono hkeep
  · exact hnew

/-- Whatever may happen keeps a history sound. -/
theorem Sound.next (hs : h.Sound C) {event : CacheEvent} (hevent : h.Allows C event) :
    (h.next event).Sound C := by
  rcases event with ⟨scope, x⟩ | x | ⟨kind, held⟩ | memory
  · -- Analysing adds one pair; the pairs before it are kept.
    obtain ⟨hfaithful, hkeep, hstands⟩ :=
      Workspace.gives_analyseComputation scope hevent h.workspace hs.faithful (.refl _)
    have hanalysed : ∀ p ∈ (h.next (.analyse scope x)).analysed, p ∈ h.analysed
        ∨ p.1.StandsFor C (h.next (.analyse scope x)).entries p.2 := by
      intro p hp
      rcases List.mem_cons.1 hp with rfl | hold
      · exact .inr hstands
      · exact .inl hold
    exact hs.of_keeps hfaithful hkeep hanalysed
  · -- What is run reports right results only, whenever it is run.
    have hadvances : Entries.Advances C h.entries (x.compute h.workspace.memory).2.entries := by
      rw [Computation.compute_eq]
      exact hevent.advances_visit
    exact hs.of_keeps (hs.faithful.withMemory hadvances) hadvances.keeps fun p hp => .inl hp
  · obtain ⟨hfaithful, hkeep⟩ := hs.faithful.sweep kind held
    exact hs.of_keeps hfaithful hkeep fun p hp => .inl hp
  · have hentries : memory.entries = h.entries := hevent
    have hadvances : Entries.Advances C h.entries memory.entries := by
      rw [hentries]
      exact .refl _
    exact hs.of_keeps (hs.faithful.withMemory hadvances) hadvances.keeps fun p hp => .inl hp

namespace Reachable

/-- Every history is sound. -/
theorem sound (hh : h.Reachable C options) : h.Sound C := by
  induction hh with
  | start hsupervisor hmemory =>
    exact ⟨.start hsupervisor hmemory, fun p hp => absurd hp List.not_mem_nil⟩
  | step _ hevent ih => exact ih.next hevent

/-- What was put in the place of a computation may be given to the cache again, at any later
time. -/
theorem admissible_analysed (hh : h.Reachable C options) {x y : Computation}
    (hxy : (x, y) ∈ h.analysed) : y.Admissible C h.entries :=
  (hh.sound.analysed _ hxy).admissible

/-- What was put in the place of a computation computes the same as the computation itself, whatever
happened before and has happened since. -/
theorem compute_analysed_eq (hh : h.Reachable C options) {x y : Computation}
    (hxy : (x, y) ∈ h.analysed) (m m' : Memory) : (y.compute m).1 = (x.compute m').1 := by
  rw [Computation.compute_eq, Computation.compute_eq]
  exact (hh.sound.analysed _ hxy).result

/-- A history goes on when a computation is analysed. -/
theorem analyse (hh : h.Reachable C options) {scope : Scope} {x y : Computation} {w : Workspace}
    (hx : x.Admissible C h.entries) (hrun : (x.analyse scope).run h.workspace = (y, w)) :
    Reachable C options ⟨w, (x, y) :: h.analysed⟩ := by
  have hnext : (h.next (.analyse scope x)).Reachable C options := hh.step hx
  rwa [next, hrun] at hnext

/-- A history goes on when what was put in the place of a computation is run. -/
theorem compute (hh : h.Reachable C options) {x y : Computation} (hxy : (x, y) ∈ h.analysed)
    {memory : Memory} (hrun : y.visit h.workspace.memory = memory) :
    Reachable C options { h with workspace.memory := memory } := by
  have hnext : (h.next (.compute y)).Reachable C options := hh.step (hh.admissible_analysed hxy)
  rwa [next, Computation.compute_eq, hrun] at hnext

/-- A history goes on when the cache is swept. -/
theorem sweep (hh : h.Reachable C options) {kind : SweepKind} {held : EntryId → Bool}
    {report : Option SweepReport} {w : Workspace}
    (hrun : (Workspace.sweep kind held).run h.workspace = (report, w)) :
    Reachable C options { h with workspace := w } := by
  have hnext : (h.next (.sweep kind held)).Reachable C options := hh.step trivial
  rwa [next, hrun] at hnext

end Reachable

/-! ## An index that moves on -/

/-- Indexes whose keys move up with the version. -/
def movingContents : Contents where
  keys i version := ⟨List.range' (i + version) 20, List.pairwise_lt_range' _ Nat.zero_lt_one⟩
  prices i version := ⟨i, version, 0, [], ∅⟩
  records _ _ := []

/-- The filter of the keys that one index has at some version and another one at its first. -/
def movingFilter (version : ℕ) : Formula :=
  let f := (Formula.ofIndex ⟨0, version, movingContents.keys 0 version⟩ {}).1
  let g := (Formula.ofIndex ⟨1, 1, movingContents.keys 1 1⟩ { fresh := 1 }).1
  (Formula.allOf [f, g] { fresh := 2 }).1

/-- Such a filter may be given to a cache at any time. -/
theorem admissible_movingFilter (version : ℕ) (entries : Entries) :
    (Computation.filter (movingFilter version)).Admissible movingContents entries := by
  constructor
  · unfold Computation.BuiltIn movingFilter
    refine .allOf (fun c hc => ?_) _
    rcases List.mem_pair.1 hc with rfl | rfl
    · exact .ofIndex rfl _
    · exact .ofIndex rfl _
  · have hread (i v : ℕ) (h : snapshotDigest i v ∈ (movingFilter version).snapshots) :
        i = 0 ∧ v = version ∨ i = 1 ∧ v = 1 := by
      obtain ⟨c, hc, hmem⟩ := Formula.mem_compositeSnapshots.1 h
      rcases List.mem_pair.1 hc with rfl | rfl
      · exact .inl (snapshotDigest_inj.1 (List.mem_singleton.1 hmem))
      · exact .inr (snapshotDigest_inj.1 (List.mem_singleton.1 hmem))
    intro i v w hv hw
    have hv := hread i v hv
    have hw := hread i w hw
    omega

/-- The keys of such a filter. -/
theorem result_movingFilter (version : ℕ) : (movingFilter version).result
    = .ofKeys ((List.range' version 20).filter (· ∈ List.range' 2 20)) := by
  have hresult : (movingFilter version).result
      = .interAll [movingContents.keys 0 version, movingContents.keys 1 1] := rfl
  rw [hresult, CandidateSet.ext_iff_mem]
  intro k
  rw [CandidateSet.mem_interAll (List.cons_ne_nil _ _), CandidateSet.mem_ofKeys]
  have hkeys (i version : ℕ) : k ∈ movingContents.keys i version
      ↔ k ∈ List.range' (i + version) 20 := Iff.rfl
  simp [hkeys]

/-- The first filter as the cache follows it. -/
def followedFilter (id : NodeId) (observer : Observer) : Formula :=
  .observed (Formula.observedProfile id (movingFilter 1)) (movingFilter 1) observer
    (movingFilter 1).cost

/-- Computing the filter marks nothing but its own nodes. -/
theorem visit_movingFilter (version : ℕ) (m : Memory) :
    ∃ computed, (movingFilter version).visit m = { m with computed }
      ∧ ∀ id, 2 < id → computed.contains id = m.isComputed id := by
  let Marks (m m' : Memory) : Prop := ∃ computed, m' = { m with computed }
    ∧ ∀ id, 2 < id → computed.contains id = m.isComputed id
  have htrans {a b c : Memory} : Marks a b → Marks b c → Marks a c := by
    rintro ⟨_, rfl, hab⟩ ⟨computed, rfl, hbc⟩
    exact ⟨computed, rfl, fun id hid => (hbc id hid).trans (hab id hid)⟩
  have hmark (m : Memory) {id : NodeId} (hid : id ≤ 2) : Marks m (m.markComputed id) :=
    ⟨_, rfl, fun _ h => Memory.isComputed_markComputed_ne m (hid.trans_lt h).ne'⟩
  have hmarkNew (m : Memory) {id : NodeId} (hid : id ≤ 2) :
      Marks m (if m.isComputed id then m else m.markComputed id) := by
    split_ifs
    · exact ⟨_, rfl, fun _ _ => rfl⟩
    · exact hmark m hid
  show Marks m (if m.isComputed 2 then m else _)
  split_ifs
  · exact ⟨_, rfl, fun _ _ => rfl⟩
  · exact htrans (htrans (hmarkNew m (Nat.zero_le 2)) (hmarkNew _ Nat.one_lt_two.le))
      (hmark _ (Nat.le_refl 2))

/-- The first run of the filter that is followed is reported. -/
theorem visit_followedFilter {m : Memory} {id : NodeId} (hid : 2 < id)
    (hnew : m.isComputed id = false) (observer : Observer) :
    ∃ computed, (followedFilter id observer).visit m = { m with
        computed
        entries := observer.report (Formula.outcome (movingFilter 1).profile (movingFilter 1)
          (movingFilter 1).cost) m.entries }
      ∧ ∀ other, id < other → computed.contains other = m.isComputed other := by
  obtain ⟨computed, hvisit, hsame⟩ := visit_movingFilter 1 m
  refine ⟨computed.insert id, ?_, fun other hother => ?_⟩
  · have hnew : ¬m.isComputed (Formula.observedProfile id (movingFilter 1)).id := by
      rw [Bool.not_eq_true]
      exact hnew
    rw [followedFilter, Formula.visit, if_neg hnew, hvisit]
    rfl
  · rw [Std.HashSet.contains_insert, beq_false_of_ne (Nat.ne_of_lt hother), Bool.false_or]
    exact hsame other (hid.trans hother)

/-- A cache whose only slot and only entry are for the first filter. -/
def filterCache (slot : Slot) (statistics : Statistics) (usage : Usage) (metrics : Option Metrics)
    (payload : Option (Digest × Payload)) (fresh : NodeId) (computed : Std.HashSet NodeId) :
    Workspace :=
  let options : CacheOptions := { minimalCost := 0, minimalUsage := 0 }
  let key := recordKey ⟨"shop", "product"⟩ .filter (movingFilter 1).digest
  ⟨⟨options, some { options, slots := [(key, slot)], statistics }⟩,
    { fresh, computed, entries := #[⟨.filter, key, usage, metrics, payload⟩] }⟩

section FilterCache

variable (computed : Std.HashSet NodeId) (keys : CandidateSet)

/-- The cache when it follows the filter. -/
def followingCache : Workspace :=
  filterCache (.adept 0) { misses := 1, adepts := 1 } ⟨1, 1, 0⟩ none none 4 ∅

/-- The cache when the first run of the filter was measured. -/
def measuredCache : Workspace :=
  filterCache (.adept 0) { misses := 1, adepts := 1 } ⟨1, 1, 0⟩ (some ⟨200, 150⟩) none 4 computed

/-- The cache when the filter was promoted. -/
def promotedCache : Workspace :=
  filterCache (.cached 0) { records := 1, usedBytes := 150, sweeps := 1 } ⟨1, 0, 0⟩
    (some ⟨200, 150⟩) none 4 computed

/-- The cache when it waits for the result of the filter. -/
def awaitingCache : Workspace :=
  filterCache (.cached 0) { misses := 1, records := 1, usedBytes := 150, sweeps := 1 } ⟨2, 1, 0⟩
    (some ⟨200, 150⟩) none 5 computed

/-- The cache when it has the result of the filter. -/
def recordedCache : Workspace :=
  filterCache (.cached 0) { misses := 1, records := 1, usedBytes := 150, sweeps := 1 } ⟨2, 1, 0⟩
    (some ⟨200, 150⟩) (some ((movingFilter 1).snapshotsDigest, .filter keys)) 5 computed

/-- An empty cache follows the filter. -/
theorem analyse_emptyCache :
    let options : CacheOptions := { minimalCost := 0, minimalUsage := 0 }
    ((Computation.filter (movingFilter 1)).analyse ⟨"shop", "product"⟩).run
        ⟨⟨options, some { options }⟩, { fresh := 3 }⟩
      = (.filter (followedFilter 3 (.adept 0)), followingCache) := by
  with_unfolding_all rfl

/-- The first run of the filter that is followed is measured. -/
theorem visit_followingCache : ∃ computed,
    (followedFilter 3 (.adept 0)).visit followingCache.memory = (measuredCache computed).memory
      ∧ computed.contains 4 = false := by
  obtain ⟨computed, hvisit, hsame⟩ := visit_followedFilter (m := followingCache.memory)
    (by decide : 2 < 3) Std.HashSet.contains_empty (.adept 0)
  have hsize : (movingFilter 1).result.footprint = 86 := by
    rw [result_movingFilter]
    cbv
  have hmetrics : (⟨(movingFilter 1).cost, Word.wrap ((movingFilter 1).result.footprint
      + recordOverhead)⟩ : Metrics) = ⟨200, 150⟩ := by
    rw [hsize]
    rfl
  refine ⟨computed, ?_, (hsame 4 (by decide)).trans Std.HashSet.contains_empty⟩
  rw [hvisit, measuredCache, ← hmetrics]
  rfl

/-- A sweep promotes the filter. -/
theorem sweep_measuredCache :
    (Workspace.sweep .periodic fun _ => false).run (measuredCache computed)
      = (some ⟨1, 0, 0, 0, 1, 0, 150⟩, promotedCache computed) := by cbv

/-- When it is promoted, its next run is awaited. -/
theorem analyse_promotedCache :
    ((Computation.filter (movingFilter 1)).analyse ⟨"shop", "product"⟩).run (promotedCache computed)
      = (.filter (followedFilter 4 (.recording 0)), awaitingCache computed) := by cbv

/-- The run that is awaited is recorded. -/
theorem visit_awaitingCache (hnew : computed.contains 4 = false) : ∃ computed',
    (followedFilter 4 (.recording 0)).visit (awaitingCache computed).memory
      = (recordedCache computed' (movingFilter 1).result).memory := by
  obtain ⟨computed', hvisit, -⟩ := visit_followedFilter (m := (awaitingCache computed).memory)
    (by decide : 2 < 4) hnew (.recording 0)
  exact ⟨computed', hvisit⟩

/-- What is recorded is replayed. -/
theorem analyse_recordedCache :
    (((Computation.filter (movingFilter 1)).analyse ⟨"shop", "product"⟩).run
        (recordedCache computed keys)).1
      = .filter (.cached (Formula.cachedProfile 5 (movingFilter 1) keys) keys) := by cbv

/-- There is a history after which the result of the filter is recorded. -/
theorem Reachable.exists_recordedCache : ∃ (h : CacheHistory) (computed : Std.HashSet NodeId),
    h.Reachable movingContents { minimalCost := 0, minimalUsage := 0 }
      ∧ h.workspace = recordedCache computed (movingFilter 1).result := by
  let options : CacheOptions := { minimalCost := 0, minimalUsage := 0 }
  have hx := admissible_movingFilter 1
  have hstart :
      Reachable movingContents options ⟨⟨⟨options, some { options }⟩, { fresh := 3 }⟩, []⟩ :=
    .start rfl rfl
  have hfollowing := hstart.analyse (hx _) analyse_emptyCache
  obtain ⟨computed, hvisit, hnew⟩ := visit_followingCache
  have hmeasured := hfollowing.compute List.mem_cons_self hvisit
  have hpromoted := hmeasured.sweep (sweep_measuredCache computed)
  have hawaiting := hpromoted.analyse (hx _) (analyse_promotedCache computed)
  obtain ⟨computed', hvisit'⟩ := visit_awaitingCache computed hnew
  exact ⟨_, computed', hawaiting.compute List.mem_cons_self hvisit', rfl⟩

end FilterCache

/-- A filter is followed, promoted, recorded and replayed, and then it is analysed at the next
version of an index. What replays it has its keys, and what is put in its place at the next version
has the keys of that version. -/
theorem compute_analysed_eq_next_version : ∃ (h : CacheHistory) (p : Profile) (keys : CandidateSet)
    (y : Computation), h.Reachable movingContents { minimalCost := 0, minimalUsage := 0 }
      ∧ (.filter (movingFilter 1), .filter (.cached p keys)) ∈ h.analysed
      ∧ (.filter (movingFilter 2), y) ∈ h.analysed
      ∧ ∀ m, ((Computation.filter (.cached p keys)).compute m).1
            = .filter (.ofKeys (List.range' 2 19))
        ∧ (y.compute m).1 = .filter (.ofKeys (List.range' 2 20)) := by
  let scope : Scope := ⟨"shop", "product"⟩
  obtain ⟨h, computed, hh, hworkspace⟩ := Reachable.exists_recordedCache
  let h' := h.next (.analyse scope (.filter (movingFilter 1)))
  let h'' := h'.next (.analyse scope (.filter (movingFilter 2)))
  have hh' : h'.Reachable movingContents _ := hh.step (admissible_movingFilter 1 _)
  have hh'' : h''.Reachable movingContents _ := hh'.step (admissible_movingFilter 2 _)
  have hreplayed := mem_analysed_next h scope (.filter (movingFilter 1))
  rw [hworkspace, analyse_recordedCache] at hreplayed
  have hkept := subset_analysed_next h' (.analyse scope (.filter (movingFilter 2))) hreplayed
  have hmoved := mem_analysed_next h' scope (.filter (movingFilter 2))
  refine ⟨h'', _, _, _, hh'', hkept, hmoved, fun m => ⟨?_, ?_⟩⟩
  · rw [hh''.compute_analysed_eq hkept m m, Computation.compute_eq]
    exact congrArg Payload.filter (result_movingFilter 1)
  · rw [hh''.compute_analysed_eq hmoved m m, Computation.compute_eq]
    exact congrArg Payload.filter (result_movingFilter 2)

end CacheHistory

end EntityQuery
