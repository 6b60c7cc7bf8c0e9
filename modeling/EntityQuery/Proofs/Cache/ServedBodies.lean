import EntityQuery.Cache.Bodies
import EntityQuery.Proofs.Cache.Results

/-!
# Bodies by version

A call for a body consults the cache first and asks the storage afterwards, for the body itself or
for what completes a cached one. In between, other calls may do either, and the table may be swept.
`BodyState.after` is the state that such events lead to, whatever the storage answers.

Bodies are recorded under the version that they carry, by one of the calls that had fetched them. So
what the entry of a body keeps was fetched for the same entity, and the snapshots that it is kept
for are the version of the body (`BodyState.Sound`). A call that finds a body in the cache is
therefore served what was fetched for it earlier, at the version that it asks for
(`BodyState.serve_version`).
-/

namespace EntityQuery

/-! ## Asking the storage -/

/-- A call for the body of an entity at some version. -/
structure BodyCall where
  scope : Scope
  primaryKey : ℕ
  version : ℕ
  deriving DecidableEq

namespace BodyCall

/-- The key of the body. -/
def key (call : BodyCall) : Digest := bodyKey call.scope call.primaryKey

/-- Where the body comes from. -/
def find (call : BodyCall) : Work BodySource :=
  BodySource.find call.scope call.primaryKey call.version

end BodyCall

/-- What a call asks the storage for. -/
inductive StorageQuestion where
  /-- The body. -/
  | fetch
  /-- What completes a cached body. -/
  | enrich (body : Entity)

/-- What the storage answers to a call. -/
structure StorageAnswers where
  fetch : Except Error (Option Entity)
  enrich : Entity → Except Error (Option Entity)

/-- A computation that consults the cache and whose questions to the storage are taken down. -/
abbrev Asking : Type → Type := ExceptT Error (StateT (List StorageQuestion) Work)

/-- Asks the storage something that it has an answer to. -/
def StorageQuestion.ask {α : Type} (question : StorageQuestion) (answer : Except Error α) :
    Asking α := do
  modify (· ++ [question])
  ofExcept answer

/-- The end of a call. -/
structure Served where
  result : Except Error (Option Entity)
  /-- What the storage was asked, in this order. -/
  questions : List StorageQuestion
  workspace : Workspace

namespace BodySource

/-- Gets the body from a storage that answers in some way. -/
def serve (source : BodySource) (answers : StorageAnswers) (w : Workspace) : Served :=
  let body : Asking (Option Entity) :=
    source.take (StorageQuestion.fetch.ask answers.fetch) fun cached =>
      (StorageQuestion.enrich cached).ask (answers.enrich cached)
  let r := (body.run.run []).run w
  ⟨r.1.1, r.1.2, r.2⟩

/-- A cached body is completed, and nothing else happens. -/
theorem serve_cached (body : Entity) (answers : StorageAnswers) (w : Workspace) :
    (cached body).serve answers w
      = ⟨(answers.enrich body).map fun richer => some (richer.getD body), [.enrich body], w⟩ := by
  rcases h : answers.enrich body with e | richer
  · simp only [serve, take, h]
    rfl
  · simp only [serve, take, h]
    rfl

/-- A body that is not cached is fetched, and its arrival is reported. -/
theorem serve_storage (observer : Option Observer) (answers : StorageAnswers) (w : Workspace) :
    (storage observer).serve answers w
      = ⟨answers.fetch, [.fetch], answers.fetch.toOption.elim w fun body =>
          { w with memory := report observer body w.memory }⟩ := by
  rcases h : answers.fetch with e | body
  · simp only [serve, take, h]
    rfl
  · simp only [serve, take, h]
    rfl

/-- Only the arrival of a body that somebody wants to be told of changes the cache. -/
theorem serve_workspace (source : BodySource) (answers : StorageAnswers) (w : Workspace) :
    (source.serve answers w).workspace = w ∨ ∃ o body, source = storage (some o) ∧
      answers.fetch = .ok (some body) ∧ (source.serve answers w).workspace = { w with
        memory := { w.memory with entries := o.report (outcome body) w.memory.entries } } := by
  rcases source with body | observer
  · exact .inl (by rw [serve_cached])
  · rw [serve_storage]
    rcases hfetch : answers.fetch with e | fetched
    · exact .inl rfl
    · rcases fetched with - | body
      · exact .inl rfl
      · rcases observer with - | o
        · exact .inl rfl
        · exact .inr ⟨o, body, rfl, rfl, rfl⟩

end BodySource

/-! ## The course of the calls -/

/-- Something that happens to a cache of bodies. -/
inductive BodyEvent where
  /-- A call begins: it consults the cache. -/
  | call (call : BodyCall)
  /-- A call ends: the storage answers the call that began as the event of some number. -/
  | answer (number : ℕ) (answers : StorageAnswers)
  /-- The table is swept, while some adepts are held. -/
  | sweep (kind : SweepKind) (held : EntryId → Bool)

/-- A call that is under way, with what it found in the cache. -/
structure PendingCall where
  /-- The number of the event that began it. -/
  number : ℕ
  call : BodyCall
  source : BodySource

/-- A cache of bodies with the calls that are under way. -/
structure BodyState where
  workspace : Workspace
  underWay : List PendingCall := []

namespace BodyState

/-- The call that began as the event of some number, while it is under way. -/
def pending? (s : BodyState) (number : ℕ) : Option PendingCall :=
  s.underWay.find? (·.number == number)

/-- What comes of a call that is under way when the storage answers it. -/
def serve? (s : BodyState) (number : ℕ) (answers : StorageAnswers) : Option Served :=
  (s.pending? number).map fun p => p.source.serve answers s.workspace

/-- The state after one more event, which has some number. -/
def next (number : ℕ) (s : BodyState) : BodyEvent → BodyState
  | .call call =>
    let (source, workspace) := call.find s.workspace
    { workspace, underWay := ⟨number, call, source⟩ :: s.underWay }
  | .answer begun answers =>
    (s.serve? begun answers).elim s fun served =>
      { workspace := served.workspace
        underWay := s.underWay.filter (·.number != begun) }
  | .sweep kind held => { s with workspace := (Workspace.sweep kind held s.workspace).2 }

/-- The state of an empty cache with some options, after a list of events. The latest event comes
first. -/
def after (options : CacheOptions) : List BodyEvent → BodyState
  | [] => { workspace := ⟨⟨options, some { options }⟩, {}⟩ }
  | event :: past => (after options past).next past.length event

/-- Whether a body was fetched for an entity: a call for the entity asked the storage for the body,
and this is what it returned. -/
inductive Fetched (options : CacheOptions) (scope : Scope) (primaryKey : ℕ) (body : Entity) :
    List BodyEvent → Prop
  /-- By the latest event. -/
  | now {past : List BodyEvent} {begun : ℕ} {answers : StorageAnswers} {p : PendingCall}
      {served : Served} (hcall : (after options past).pending? begun = some p)
      (hscope : p.call.scope = scope) (hkey : p.call.primaryKey = primaryKey)
      (hserved : (after options past).serve? begun answers = some served)
      (hasked : .fetch ∈ served.questions) (hbody : served.result = .ok (some body)) :
      Fetched options scope primaryKey body (.answer begun answers :: past)
  /-- By an earlier one. -/
  | earlier {past : List BodyEvent} (event : BodyEvent)
      (h : Fetched options scope primaryKey body past) :
      Fetched options scope primaryKey body (event :: past)

/-! ## Calls that are under way -/

variable {s : BodyState}

/-- A call that is found by its number is under way. -/
theorem mem_of_pending? {number : ℕ} {p : PendingCall} (h : s.pending? number = some p) :
    p ∈ s.underWay ∧ p.number = number :=
  ⟨List.mem_of_find?_eq_some h, by simpa using List.find?_some h⟩

/-- A call is under way already, or it is the one that begins. -/
theorem mem_underWay_next {number : ℕ} {event : BodyEvent} {p : PendingCall}
    (h : p ∈ (s.next number event).underWay) :
    p ∈ s.underWay
      ∨ ∃ call, event = .call call ∧ p = ⟨number, call, (call.find s.workspace).1⟩ := by
  cases event with
  | call call =>
    rcases List.mem_cons.1 h with rfl | hold
    · exact .inr ⟨call, rfl, rfl⟩
    · exact .inl hold
  | answer begun answers =>
    rw [next] at h
    rcases hserved : s.serve? begun answers with - | served
    · rw [hserved] at h
      exact .inl h
    · rw [hserved] at h
      exact .inl (List.mem_of_mem_filter h)
  | sweep kind held => exact .inl h

/-- Calls have the numbers of events that have happened. -/
theorem number_lt (options : CacheOptions) (past : List BodyEvent) :
    ∀ p ∈ (after options past).underWay, p.number < past.length := by
  induction past with
  | nil => exact fun p hp => absurd hp List.not_mem_nil
  | cons event past ih =>
    intro p hp
    rcases mem_underWay_next hp with hold | ⟨call, -, rfl⟩
    · exact Nat.lt_succ_of_lt (ih p hold)
    · exact Nat.lt_succ_self _

/-- While a call is under way, it is the one that began, with what it found then. -/
theorem eq_of_underWay {options : CacheOptions} {past : List BodyEvent} {call : BodyCall}
    (later : List BodyEvent) {p : PendingCall}
    (hp : p ∈ (after options (later ++ .call call :: past)).underWay)
    (hnumber : p.number = past.length) :
    p = ⟨past.length, call, (call.find (after options past).workspace).1⟩ := by
  induction later with
  | nil =>
    rcases mem_underWay_next hp with hold | ⟨other, hevent, rfl⟩
    · exact absurd hnumber (Nat.ne_of_lt (number_lt options past p hold))
    · obtain rfl := BodyEvent.call.inj hevent
      rfl
  | cons event later ih =>
    rcases mem_underWay_next hp with hold | ⟨other, -, rfl⟩
    · exact ih hold
    · -- What begins later has a greater number.
      have hlength : (later ++ BodyEvent.call call :: past).length = past.length := hnumber
      simp only [List.length_append, List.length_cons] at hlength
      omega

end BodyState

/-! ## Consulting the cache -/

namespace BodySource

/-- Where a body comes from, by what the table says of it. -/
def ofLookup : Lookup → BodySource
  | .hit (.entity body) => cached body
  | .record entry => storage (some (.recording entry))
  | .adept entry => storage (some (.adept entry))
  | .hit _ | .stale => storage none

/-- Whether a source belongs to the body that is called for: what is cached is kept for the version
that is asked for, and what is reported to has the key. -/
def IsFor (entries : Entries) (call : BodyCall) : BodySource → Prop
  | cached body => ∃ (i : EntryId) (e : Entry), entries[i]? = some e ∧ e.key = call.key ∧
      e.payload = some (.word call.version, .entity body)
  | storage (some o) => ∃ e, entries[o.entry]? = some e ∧ e.key = call.key
  | storage none => True

/-- What is found by an answer about a key belongs to the body of the key. -/
theorem isFor_ofLookup {entries : Entries} {call : BodyCall} {answer : Lookup}
    (h : answer.IsFor entries call.key (.word call.version)) :
    (ofLookup answer).IsFor entries call := by
  rcases answer with payload | entry | entry | -
  · cases payload with
    | entity body => exact h
    | filter _ | sorted _ | extra _ => trivial
  · exact h
  · exact h
  · trivial

end BodySource

namespace Workspace

/-- Whether there is a table, and it is indexed. -/
def Indexed (w : Workspace) : Prop :=
  ∃ t, w.supervisor.table = some t ∧ t.Indexed w.memory.entries

variable {w : Workspace}

/-- A call looks its body up. -/
theorem find_eq {t : Table} (ht : w.supervisor.table = some t) (call : BodyCall) :
    call.find w = (.ofLookup
        ((lookup t call.key .entity (.word call.version)).run w).1,
      ((lookup t call.key .entity (.word call.version)).run w).2) := by
  unfold BodyCall.find BodySource.find
  simp only [bind, StateT.bind, get, getThe, MonadStateOf.get, StateT.get, pure, ht]
  rcases h : (lookup t call.key .entity (.word call.version)).run w with ⟨answer, w'⟩
  have hrun : lookup t (bodyKey call.scope call.primaryKey) .entity (.word call.version) w
      = (answer, w') := h
  rw [hrun]
  rcases answer with payload | entry | entry | -
  · cases payload <;> rfl
  · rfl
  · rfl
  · rfl

/-- A call finds what belongs to its body. It leaves the table indexed and reports nothing. -/
theorem Indexed.find (h : w.Indexed) (call : BodyCall) :
    (call.find w).2.Indexed ∧ Entries.Unreported w.memory.entries (call.find w).2.memory.entries ∧
      (call.find w).1.IsFor (call.find w).2.memory.entries call := by
  obtain ⟨t, ht, hindexed⟩ := h
  obtain ⟨hindexed', hunreported, hfor⟩ := hindexed.lookup call.key .entity (.word call.version)
  rw [find_eq ht]
  exact ⟨⟨_, rfl, hindexed'⟩, hunreported, BodySource.isFor_ofLookup hfor⟩

/-- A sweep leaves the table indexed and reports nothing. -/
theorem Indexed.sweep (h : w.Indexed) (kind : SweepKind) (held : EntryId → Bool) :
    (Workspace.sweep kind held w).2.Indexed ∧
      Entries.Unreported w.memory.entries (Workspace.sweep kind held w).2.memory.entries := by
  obtain ⟨t, ht, hindexed⟩ := h
  obtain ⟨hindexed', hunreported⟩ := hindexed.sweep kind held
  have hrun : (Workspace.sweep kind held w).2
      = { supervisor := { w.supervisor with
            table := some (t.sweep kind held w.memory.entries).2.1 }
          memory := { w.memory with entries := (t.sweep kind held w.memory.entries).2.2 } } := by
    simp only [Workspace.sweep, Supervisor.sweep, ht]
  rw [hrun]
  exact ⟨⟨_, rfl, hindexed'⟩, hunreported⟩

end Workspace

/-! ## What is kept of bodies -/

/-- Whether what entries keep of bodies was fetched for the entity, and is kept for the version that
the body carries. -/
def Entries.Bodies (fetched : Scope → ℕ → Entity → Prop) (entries : Entries) : Prop :=
  ∀ (i : EntryId) (e : Entry) (r : Digest × Payload) (scope : Scope) (primaryKey : ℕ),
    entries[i]? = some e → e.payload = some r → e.key = bodyKey scope primaryKey →
      ∃ body, r = (.word body.version, .entity body) ∧ fetched scope primaryKey body

namespace Entries.Bodies

variable {fetched : Scope → ℕ → Entity → Prop} {entries : Entries}

/-- While nothing is reported, what is kept stays. -/
theorem of_unreported (h : Entries.Bodies fetched entries) {new : Entries}
    (hunreported : Entries.Unreported entries new) : Entries.Bodies fetched new := by
  intro i e' r scope primaryKey he' hr hkey
  obtain ⟨e, he, hsame, hpayload⟩ := hunreported.exists_old he' hr
  exact h i e r scope primaryKey he hpayload (hsame.trans hkey)

/-- What has been fetched stays fetched. -/
theorem mono (h : Entries.Bodies fetched entries) {fetched' : Scope → ℕ → Entity → Prop}
    (hmono : ∀ scope primaryKey body, fetched scope primaryKey body →
      fetched' scope primaryKey body) : Entries.Bodies fetched' entries := by
  intro i e r scope primaryKey he hr hkey
  obtain ⟨body, hr, hfetched⟩ := h i e r scope primaryKey he hr hkey
  exact ⟨body, hr, hmono scope primaryKey body hfetched⟩

/-- A body that was fetched arrives, and the entry with its key is told. -/
theorem report (h : Entries.Bodies fetched entries) {o : Observer} {e₀ : Entry} {call : BodyCall}
    (he₀ : entries[o.entry]? = some e₀) (hkey₀ : e₀.key = call.key) {body : Entity}
    (hfetched : fetched call.scope call.primaryKey body) :
    Entries.Bodies fetched (o.report (BodySource.outcome body) entries) := by
  intro i e' r scope primaryKey he' hr hkey
  obtain ⟨e, he, hsame, hold | ⟨rfl, rfl⟩⟩ := Entries.of_report he' hr
  · exact h i e r scope primaryKey he hold (hsame.trans hkey)
  · obtain rfl : e = e₀ := Option.some.inj (he.symm.trans he₀)
    obtain ⟨rfl, rfl⟩ := bodyKey_inj.1 (hkey₀.symm.trans (hsame.trans hkey))
    exact ⟨body, rfl, hfetched⟩

end Entries.Bodies

namespace BodyState

variable {s : BodyState}

/-- What holds of a cache of bodies at any time. -/
structure Sound (fetched : Scope → ℕ → Entity → Prop) (s : BodyState) : Prop where
  /-- Slots lead to entries with their keys. -/
  indexed : s.workspace.Indexed
  /-- What is kept of bodies was fetched. -/
  bodies : Entries.Bodies fetched s.workspace.memory.entries
  /-- Calls under way report to entries with the keys of their bodies. -/
  reports : ∀ p ∈ s.underWay, ∀ o, p.source = .storage (some o) →
    ∃ e, s.workspace.memory.entries[o.entry]? = some e ∧ e.key = p.call.key

namespace Sound

variable {fetched : Scope → ℕ → Entity → Prop}

/-- The entries of calls under way stay, as long as no calls are added. -/
theorem reports_mono (h : s.Sound fetched) {s' : BodyState}
    (hcalls : ∀ p ∈ s'.underWay, p ∈ s.underWay)
    (hkeep : Entries.Keeps s.workspace.memory.entries s'.workspace.memory.entries) :
    ∀ p ∈ s'.underWay, ∀ o, p.source = .storage (some o) →
      ∃ e, s'.workspace.memory.entries[o.entry]? = some e ∧ e.key = p.call.key := by
  intro p hp o ho
  exact hkeep.exists_key (h.reports p (hcalls p hp) o ho)

/-- A call begins. -/
theorem call (h : s.Sound fetched) (number : ℕ) (call : BodyCall) :
    (s.next number (.call call)).Sound fetched := by
  obtain ⟨hindexed, hunreported, hfor⟩ := h.indexed.find call
  refine ⟨hindexed, h.bodies.of_unreported hunreported, fun p hp o ho => ?_⟩
  -- The new call reports to what it has found, and the entries of the others stay.
  rcases List.mem_cons.1 hp with rfl | hold
  · have hsource : (call.find s.workspace).1 = .storage (some o) := ho
    rw [hsource] at hfor
    exact hfor
  · exact hunreported.keeps.exists_key (h.reports p hold o ho)

/-- A sweep changes neither what is kept nor whom calls report to. -/
theorem sweep (h : s.Sound fetched) (number : ℕ) (kind : SweepKind) (held : EntryId → Bool) :
    (s.next number (.sweep kind held)).Sound fetched := by
  obtain ⟨hindexed, hunreported⟩ := h.indexed.sweep kind held
  exact ⟨hindexed, h.bodies.of_unreported hunreported,
    h.reports_mono (fun _ hp => hp) hunreported.keeps⟩

/-- A call ends. What arrives has been fetched. -/
theorem answer (h : s.Sound fetched) (number : ℕ) {begun : ℕ} {answers : StorageAnswers}
    (harrives : ∀ p, s.pending? begun = some p → ∀ observer body, p.source = .storage observer →
      answers.fetch = .ok (some body) → fetched p.call.scope p.call.primaryKey body) :
    (s.next number (.answer begun answers)).Sound fetched := by
  rw [next, serve?]
  rcases hp : s.pending? begun with - | p
  · exact h
  · rw [Option.map_some, Option.elim_some]
    have hcalls : ∀ q ∈ s.underWay.filter (·.number != begun), q ∈ s.underWay :=
      fun _ hq => List.mem_of_mem_filter hq
    rcases p.source.serve_workspace answers s.workspace with hsame | ⟨o, body, ho, hfetch, hreport⟩
    · rw [hsame]
      exact ⟨h.indexed, h.bodies, h.reports_mono hcalls (.refl _)⟩
    · rw [hreport]
      obtain ⟨t, ht, hindexed⟩ := h.indexed
      obtain ⟨e, he, hkey⟩ := h.reports p (mem_of_pending? hp).1 o ho
      have hkeep := Entries.Keeps.report s.workspace.memory.entries o (BodySource.outcome body)
      exact ⟨⟨t, ht, hindexed.mono hkeep⟩,
        h.bodies.report he hkey (harrives p hp _ body ho hfetch),
        h.reports_mono hcalls hkeep⟩

end Sound

/-- At any time, what is kept of bodies was fetched. -/
theorem after_sound (options : CacheOptions) (past : List BodyEvent) :
    (after options past).Sound fun scope primaryKey body =>
      Fetched options scope primaryKey body past := by
  induction past with
  | nil =>
    refine ⟨⟨{ options }, rfl, fun s hs => absurd hs List.not_mem_nil⟩, fun i e r _ _ he => ?_,
      fun p hp => absurd hp List.not_mem_nil⟩
    exact absurd he (by simp [after])
  | cons event past ih =>
    have hsound : (after options past).Sound fun scope primaryKey body =>
        Fetched options scope primaryKey body (event :: past) :=
      ⟨ih.indexed, ih.bodies.mono fun _ _ _ h => h.earlier event, ih.reports⟩
    cases event with
    | call call => exact hsound.call past.length call
    | sweep kind held => exact hsound.sweep past.length kind held
    | answer begun answers =>
      -- A call reports only what it was told when it asked for the body.
      refine hsound.answer past.length fun p hp observer body hsource hfetch => ?_
      have hserved : (after options past).serve? begun answers
          = some (p.source.serve answers (after options past).workspace) := by
        rw [serve?, hp, Option.map_some]
      rw [hsource, BodySource.serve_storage] at hserved
      exact .now hp rfl rfl hserved (List.mem_singleton_self _) hfetch

/-- What becomes of a call once the storage answers. Unless it asks for the body, it completes a
body that an earlier call had fetched for the same entity, of the version that it asks for.
Otherwise it asks for the body once and returns that. Neither a call that completes a body nor one
that fails to fetch it changes anything, and nor does consulting the cache change what is kept. -/
theorem serve_version (options : CacheOptions) (past later : List BodyEvent) (call : BodyCall)
    (answers : StorageAnswers) {served : Served}
    (h : (after options (later ++ .call call :: past)).serve? past.length answers = some served) :
    (.fetch ∉ served.questions → ∃ body,
        Fetched options call.scope call.primaryKey body past ∧ body.version = call.version ∧
          served.questions = [.enrich body] ∧
          served.result = (answers.enrich body).map fun richer => some (richer.getD body)) ∧
      (.fetch ∈ served.questions →
        served.questions = [.fetch] ∧ served.result = answers.fetch) ∧
      (.fetch ∉ served.questions ∨ (∃ e, answers.fetch = .error e) →
        served.workspace = (after options (later ++ .call call :: past)).workspace) ∧
      ∀ i, Entries.result? (after options (.call call :: past)).workspace.memory.entries i
        = Entries.result? (after options past).workspace.memory.entries i := by
  have hsound := after_sound options past
  obtain ⟨-, hunreported, hfor⟩ := hsound.indexed.find call
  obtain ⟨p, hp, rfl⟩ := Option.map_eq_some_iff.1 h
  obtain ⟨hmem, hnumber⟩ := mem_of_pending? hp
  obtain rfl := eq_of_underWay later hmem hnumber
  generalize (after options (later ++ .call call :: past)).workspace = w
  dsimp only
  -- What was found when the call began decides, whatever has happened since.
  rcases hsource : (call.find (after options past).workspace).1 with body | observer
  · -- What was found is kept for the version that is asked for.
    rw [hsource] at hfor
    obtain ⟨i, e, he, hkey, hpayload⟩ := hfor
    obtain ⟨e₀, he₀, hsame, hpayload₀⟩ := hunreported.exists_old he hpayload
    obtain ⟨fetched, hr, hfetched⟩ :=
      hsound.bodies i e₀ _ call.scope call.primaryKey he₀ hpayload₀ (hsame.trans hkey)
    obtain ⟨hversion, hbody⟩ := Prod.mk.inj hr
    obtain rfl := Payload.entity.inj hbody
    rw [BodySource.serve_cached]
    refine ⟨fun _ => ⟨body, hfetched, (Digest.word.inj hversion).symm, rfl, rfl⟩, ?_,
      fun _ => rfl, hunreported.result?_eq⟩
    intro hasked
    exact absurd (List.mem_singleton.1 hasked) (by simp)
  · rw [BodySource.serve_storage]
    refine ⟨fun hasked => absurd (List.mem_singleton_self _) hasked, fun _ => ⟨rfl, rfl⟩, ?_,
      hunreported.result?_eq⟩
    rintro (hasked | ⟨e, hfetch⟩)
    · exact absurd (List.mem_singleton_self _) hasked
    · rw [hfetch]
      rfl

/-- A call for the body of a product. -/
def productCall (version : ℕ) : BodyCall := ⟨⟨"shop", "product"⟩, 3, version⟩

/-- A product is fetched and its adept is promoted. The next call fails, and the one after it
records the body. -/
def recordedProduct : List BodyEvent :=
  let body : Entity := { entityType := "product", primaryKey := 3, version := 1, attributes := [] }
  let arrives : StorageAnswers := ⟨.ok (some body), fun _ => .ok none⟩
  let fails : StorageAnswers := ⟨.error (.fetch "offline"), fun _ => .ok none⟩
  [.answer 5 arrives, .call (productCall 1), .answer 3 fails, .call (productCall 1),
    .sweep .periodic fun _ => false, .answer 0 arrives, .call (productCall 1)]

/-- The version that was recorded is served from the cache while the storage is offline, and for the
next version the storage is asked, which fails. -/
theorem serve_version_product :
    let options : CacheOptions := { minimalUsage := 0 }
    let offline : StorageAnswers := ⟨.error (.fetch "offline"), fun _ => .ok none⟩
    (∃ served body, (after options (.call (productCall 1) :: recordedProduct)).serve? 7 offline
        = some served ∧ served.result = .ok (some body) ∧ body.version = 1 ∧
        Fetched options ⟨"shop", "product"⟩ 3 body recordedProduct) ∧
      ∃ served, (after options (.call (productCall 2) :: recordedProduct)).serve? 7 offline
        = some served ∧ served.questions = [.fetch] ∧
        served.result = .error (.fetch "offline") := by
  intro options offline
  have hcached : (after { minimalUsage := 0 } (.call (productCall 1) :: recordedProduct)).pending? 7
      = some ⟨7, productCall 1, .cached ⟨"product", 3, 1, []⟩⟩ := by cbv
  have hstale : (after { minimalUsage := 0 } (.call (productCall 2) :: recordedProduct)).pending? 7
      = some ⟨7, productCall 2, .storage none⟩ := by cbv
  constructor
  · obtain ⟨served, hserved, hquestions⟩ :
        ∃ served, (after options (.call (productCall 1) :: recordedProduct)).serve? 7 offline
          = some served ∧ .fetch ∉ served.questions := by
      rw [serve?, hcached, Option.map_some, BodySource.serve_cached]
      exact ⟨_, rfl, by simp⟩
    obtain ⟨hkept, -⟩ := serve_version options recordedProduct [] (productCall 1) offline hserved
    obtain ⟨body, hfetched, hversion, -, hresult⟩ := hkept hquestions
    exact ⟨served, body, hserved, hresult, hversion, hfetched⟩
  · obtain ⟨served, hserved, hquestions⟩ :
        ∃ served, (after options (.call (productCall 2) :: recordedProduct)).serve? 7 offline
          = some served ∧ .fetch ∈ served.questions := by
      rw [serve?, hstale, Option.map_some, BodySource.serve_storage]
      exact ⟨_, rfl, List.mem_singleton_self _⟩
    obtain ⟨-, hasked, -⟩ :=
      serve_version options recordedProduct [] (productCall 2) offline hserved
    obtain ⟨hquestions, hresult⟩ := hasked hquestions
    exact ⟨served, hserved, hquestions, hresult⟩

end BodyState

end EntityQuery
