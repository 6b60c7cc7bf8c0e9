import EntityQuery.Proofs.Cache.Arrivals
import EntityQuery.Proofs.Engine.Policies

/-!
# Asking for bodies

What a query asks its storage for is seen by answering it over a storage that takes down the keys of
the bodies that are fetched from it (`Storage.logged`). The two evaluations run in step. Each step
has one law, `Evaluation.Asks`, which tells what is taken down along with what the step gives, and
the laws of steps that follow one another are put together by `Asks.bind`.

Steps that only consult the cache bring no body to it, so they ask for nothing (`Asks.attempt`). A
body is fetched if there is such an entity and the cache does not have it (`body_asks`). What the
cache has is a body of the right entity, as no other bodies arrive (`Workspace.KeepsBodies`). For
some keys, the storage is asked for a sublist of them (`prefetch_asks`, `bodies_asks`), so for none
of them twice if they are distinct. As long as they are, it makes no difference that a body that is
known already is taken out for its key (`bodies_eq_filterMapM`).

What a body of an entity is may depend on the version. A body that is served is one of the version
that the storage has of the entity, whether it was fetched then or kept from before
(`Storage.IsCurrent`).
-/

namespace EntityQuery

variable {σ : Type}

/-! ## Storages -/

/-- Whether a storage, while it is in a valid state, has the entities of some type that are present
and no others, and gives bodies of theirs whenever it does not fail. -/
structure Storage.Reads (storage : Storage σ) (valid : σ → Prop) (scope : Scope)
    (requirements : ℕ) (present : ℕ → Bool) (IsBody : Scope → ℕ → ℕ → Entity → Prop) : Prop where
  /-- There is a version of the entities that are present. -/
  version : ∀ store k, valid store →
    (storage.version store scope.entityType k).isSome = present k
  /-- What is fetched for an entity is a body of the entity, in the version that the storage has and
  in the one that the body tells. -/
  fetch : ∀ store k v answer, valid store → storage.version store scope.entityType k = some v →
    ((storage.fetch scope.entityType k requirements).run store).1 = .ok answer →
      ∃ e ∈ answer, IsBody scope k v e ∧ IsBody scope k e.version e
  /-- A body that is completed is a body of the same entity in the same version. -/
  enrich : ∀ store k v e richer, valid store →
    storage.version store scope.entityType k = some v → IsBody scope k v e →
      ((storage.enrich e requirements).run store).1 = .ok (some richer) → IsBody scope k v richer
  /-- Fetching leaves the storage in a valid state. -/
  valid_fetch : ∀ store k, valid store →
    valid ((storage.fetch scope.entityType k requirements).run store).2
  /-- Completing does too. -/
  valid_enrich : ∀ store e, valid store → valid ((storage.enrich e requirements).run store).2

/-- Whether a body is one of an entity, in the version that a storage has of the entity while it is
in a valid state. -/
def Storage.IsCurrent (storage : Storage σ) (valid : σ → Prop)
    (IsBody : Scope → ℕ → ℕ → Entity → Prop) (scope : Scope) (k : ℕ) (e : Entity) : Prop :=
  ∃ store v, valid store ∧ storage.version store scope.entityType k = some v ∧ IsBody scope k v e

/-- A storage that takes down the keys of the bodies that are fetched from it. -/
def Storage.logged (storage : Storage σ) : Storage (σ × List ℕ) where
  version s := storage.version s.1
  fetch entityType k n := fun s =>
    let (answer, store) := (storage.fetch entityType k n).run s.1
    (answer, (store, s.2 ++ [k]))
  enrich e n := fun s =>
    let (answer, store) := (storage.enrich e n).run s.1
    (answer, (store, s.2))

/-- An engine at work over a storage that has taken down some keys. -/
def EngineState.withLog (s : EngineState σ) (log : List ℕ) : EngineState (σ × List ℕ) :=
  ⟨s.engine, s.memory, (s.store, log)⟩

/-! ## Bodies in entries -/

section

variable {IsBody : Scope → ℕ → ℕ → Entity → Prop} {entries : Entries}

/-- Whether each body that is kept for an entity is a body of the entity, in the version that the
body tells, and is kept for that version. -/
def Entries.HoldBodies (IsBody : Scope → ℕ → ℕ → Entity → Prop) (entries : Entries) : Prop :=
  ∀ (i : EntryId) (e : Entry) (v : Digest) (body : Entity) (scope : Scope) (k : ℕ),
    entries[i]? = some e → e.payload = some (v, .entity body) → e.key = bodyKey scope k →
      v = .word body.version ∧ IsBody scope k body.version body

namespace Entries.HoldBodies

/-- While no body arrives, the bodies that are kept are old ones. -/
theorem of_bodiless (h : HoldBodies IsBody entries) {new : Entries} (hnew : Bodiless entries new) :
    HoldBodies IsBody new := by
  intro i e' v body scope k he' hr hkey
  obtain ⟨e, he, hsame, hpayload⟩ := hnew.old_of_entity i e' _ he' hr ⟨body, rfl⟩
  exact h i e v body scope k he hpayload (hsame.trans hkey)

/-- A body arrives for the entity that it is a body of. -/
theorem report (h : HoldBodies IsBody entries) {o : Observer} {scope : Scope} {k : ℕ}
    (hentry : ∃ e, entries[o.entry]? = some e ∧ e.key = bodyKey scope k) {body : Entity}
    (hbody : IsBody scope k body.version body) :
    HoldBodies IsBody (o.report (BodySource.outcome body) entries) := by
  intro i e' v body' scope' k' he' hr hkey
  obtain ⟨e, he, hsame, hpayload | ⟨rfl, hreported⟩⟩ := of_report he' hr
  · exact h i e v body' scope' k' he hpayload (hsame.trans hkey)
  · obtain ⟨e₀, he₀, hkey₀⟩ := hentry
    obtain rfl : e₀ = e := Option.some.inj (he₀.symm.trans he)
    obtain ⟨rfl, rfl⟩ := bodyKey_inj.1 (hkey₀.symm.trans (hsame.trans hkey))
    obtain ⟨rfl, hsame⟩ := Prod.mk.inj hreported
    obtain rfl := Payload.entity.inj hsame
    exact ⟨rfl, hbody⟩

end Entries.HoldBodies

end

/-- What holds of a cache at any time: the table, if there is one, has its entries, and the bodies
that are kept are bodies of their entities. -/
structure Workspace.KeepsBodies (IsBody : Scope → ℕ → ℕ → Entity → Prop) (w : Workspace) :
    Prop where
  /-- The table has its entries. -/
  tabled : w.Tabled
  /-- The bodies are bodies of their entities. -/
  bodies : w.memory.entries.HoldBodies IsBody

namespace Workspace.KeepsBodies

variable {IsBody : Scope → ℕ → ℕ → Entity → Prop} {w w' : Workspace}

/-- What brings no body leaves the bodies as they are. -/
theorem of_bodiless (h : w.KeepsBodies IsBody) (hw : w.Bodiless w') : w'.KeepsBodies IsBody :=
  have ⟨htabled, hbodiless⟩ := hw h.tabled
  ⟨htabled, h.bodies.of_bodiless hbodiless⟩

/-- A body arrives, and an observer of its entry is told, if there is one. -/
theorem report (h : w.KeepsBodies IsBody) {observer : Option Observer} {scope : Scope} {k : ℕ}
    (hobserver : ∀ o ∈ observer,
      ∃ e, w.memory.entries[o.entry]? = some e ∧ e.key = bodyKey scope k)
    {body : Entity} (hbody : IsBody scope k body.version body) :
    KeepsBodies IsBody { w with memory := BodySource.report observer (some body) w.memory } := by
  cases observer with
  | none => exact h
  | some o =>
    have hkeep := Entries.Keeps.report w.memory.entries o (BodySource.outcome body)
    exact ⟨fun t ht => (h.tabled t ht).mono hkeep, h.bodies.report (hobserver o rfl) hbody⟩

end Workspace.KeepsBodies

/-- A call finds what belongs to its body, with a cache or without one. -/
theorem Workspace.Tabled.find {w : Workspace} (hw : w.Tabled) (call : BodyCall) :
    (call.find w).2.Tabled ∧
      Entries.Bodiless w.memory.entries (call.find w).2.memory.entries ∧
      (call.find w).1.IsFor (call.find w).2.memory.entries call := by
  rcases ht : w.supervisor.table with - | t
  · have hfind : call.find w = (.storage none, w) := BodySource.find_disabled ht
    rw [hfind]
    exact ⟨hw, .refl _, trivial⟩
  · obtain ⟨⟨t', ht', hindexed⟩, hunreported, hfor⟩ := Workspace.Indexed.find ⟨t, ht, hw t ht⟩ call
    refine ⟨fun t'' ht'' => ?_, .of_unreported hunreported, hfor⟩
    obtain rfl : t' = t'' := Option.some.inj (ht'.symm.trans ht'')
    exact hindexed

/-! ## Steps that ask for bodies -/

/-- What holds between the steps of answering a query: the cache keeps bodies of the right entities,
and the storage is in a valid state. -/
structure EngineState.KeepsBodies (IsBody : Scope → ℕ → ℕ → Entity → Prop) (valid : σ → Prop)
    (s : EngineState σ) : Prop where
  /-- The cache keeps bodies of the right entities. -/
  cache : s.workspace.KeepsBodies IsBody
  /-- The storage is in a valid state. -/
  store : valid s.store

namespace Evaluation

variable {α β ι : Type} {IsBody : Scope → ℕ → ℕ → Entity → Prop} {valid : σ → Prop}
  {present : ℕ → Bool}

/-- What is known of a step that starts in some state, with and without a storage that takes down
keys: a property of its outcome together with the keys that are taken down. -/
structure Asks (IsBody : Scope → ℕ → ℕ → Entity → Prop) (valid : σ → Prop) (s : EngineState σ)
    (x : Evaluation σ α) (x' : Evaluation (σ × List ℕ) α) (P : Except Error α → List ℕ → Prop) :
    Prop where
  /-- What holds between steps holds after the step. -/
  keeps : (x.run s).2.KeepsBodies IsBody valid
  /-- The keys that are taken down go with the outcome, and nothing else is different. -/
  asked : ∃ asked, P (x.run s).1 asked ∧
    ∀ log, x'.run (s.withLog log) = ((x.run s).1, (x.run s).2.withLog (log ++ asked))

namespace Asks

variable {s : EngineState σ} {x : Evaluation σ α} {x' : Evaluation (σ × List ℕ) α}
  {P : Except Error α → List ℕ → Prop} {Q : Except Error β → List ℕ → Prop}

/-- What is known may be less. -/
theorem mono {P' : Except Error α → List ℕ → Prop} (h : Asks IsBody valid s x x' P)
    (hP : ∀ outcome asked, P outcome asked → P' outcome asked) : Asks IsBody valid s x x' P' :=
  let ⟨asked, hasked, hrun⟩ := h.asked
  ⟨h.keeps, asked, hP _ _ hasked, hrun⟩

/-- A value asks for nothing. -/
theorem pure (hs : s.KeepsBodies IsBody valid) {a : α} (h : P (.ok a) []) :
    Asks IsBody valid s (Pure.pure a) (Pure.pure a) P :=
  ⟨hs, [], h, fun log => by rw [List.append_nil]; rfl⟩

/-- One step follows another, and what both ask for is taken down. -/
theorem bind {f : α → Evaluation σ β} {f' : α → Evaluation (σ × List ℕ) β}
    (h : Asks IsBody valid s x x' P)
    (hok : ∀ a t, x.run s = (.ok a, t) → t.KeepsBodies IsBody valid → ∀ asked, P (.ok a) asked →
      Asks IsBody valid t (f a) (f' a) fun outcome more => Q outcome (asked ++ more))
    (herror : ∀ e asked, P (.error e) asked → Q (.error e) asked) :
    Asks IsBody valid s (x >>= f) (x' >>= f') Q := by
  obtain ⟨hkeeps, asked, hasked, hlogged⟩ := h
  rcases hrun : x.run s with ⟨e | a, t⟩
  · rw [hrun] at hkeeps hasked hlogged
    refine ⟨by rw [run_bind_of_error hrun]; exact hkeeps, asked, ?_, fun log => ?_⟩
    · rw [run_bind_of_error hrun]
      exact herror e asked hasked
    · rw [run_bind_of_error hrun, run_bind_of_error (hlogged log)]
  · rw [hrun] at hkeeps hasked hlogged
    obtain ⟨hkeeps', more, hmore, hlogged'⟩ := hok a t hrun hkeeps asked hasked
    refine ⟨by rw [run_bind_of_ok hrun]; exact hkeeps', asked ++ more, ?_, fun log => ?_⟩
    · rw [run_bind_of_ok hrun]
      exact hmore
    · rw [run_bind_of_ok hrun, run_bind_of_ok (hlogged log), hlogged' (log ++ asked),
        List.append_assoc]

/-- The state is looked at, but not at what is taken down. -/
theorem look {f : EngineState σ → Evaluation σ α}
    {f' : EngineState (σ × List ℕ) → Evaluation (σ × List ℕ) α}
    (hf' : ∀ log, f' (s.withLog log) = f' (s.withLog []))
    (h : Asks IsBody valid s (f s) (f' (s.withLog [])) P) :
    Asks IsBody valid s (get >>= f) (get >>= f') P := by
  have hrun' (log : List ℕ) :
      (get >>= f').run (s.withLog log) = (f' (s.withLog log)).run (s.withLog log) := rfl
  obtain ⟨hkeeps, asked, hasked, hlogged⟩ := h
  refine ⟨hkeeps, asked, hasked, fun log => ?_⟩
  rw [hrun', hf', hlogged log]
  rfl

end Asks

/-- What is known of a step that asks for nothing: a property of the value that it gives. -/
def Silent (V : α → Prop) (outcome : Except Error α) (asked : List ℕ) : Prop :=
  asked = [] ∧ ∀ a, outcome = .ok a → V a

/-- A step that asks for nothing may fail. -/
theorem silent_error {V : α → Prop} (e : Error) : Silent V (.error e) [] :=
  ⟨rfl, fun _ herror => by cases herror⟩

namespace Asks

variable {s : EngineState σ} {x : Evaluation σ α} {x' : Evaluation (σ × List ℕ) α} {V : α → Prop}
  {Q : Except Error β → List ℕ → Prop}

/-- One step follows another that asks for nothing. -/
theorem bindSilent {f : α → Evaluation σ β} {f' : α → Evaluation (σ × List ℕ) β}
    (h : Asks IsBody valid s x x' (Silent V))
    (hok : ∀ a t, t.KeepsBodies IsBody valid → V a → Asks IsBody valid t (f a) (f' a) Q)
    (herror : ∀ e, Q (.error e) []) : Asks IsBody valid s (x >>= f) (x' >>= f') Q := by
  refine h.bind (fun a t _ ht asked hasked => ?_) fun e asked hasked => ?_
  · obtain ⟨rfl, hvalue⟩ := hasked
    exact hok a t ht (hvalue a rfl)
  · obtain ⟨rfl, -⟩ := hasked
    exact herror e

/-- A step that takes down nothing asks for nothing. -/
theorem silent (hkeeps : (x.run s).2.KeepsBodies IsBody valid)
    (hV : ∀ a, (x.run s).1 = .ok a → V a)
    (hlogged : ∀ log, x'.run (s.withLog log) = ((x.run s).1, (x.run s).2.withLog log)) :
    Asks IsBody valid s x x' (Silent V) := by
  refine ⟨hkeeps, [], ⟨rfl, hV⟩, fun log => ?_⟩
  rw [List.append_nil]
  exact hlogged log

/-- What consults the cache and brings no body asks for nothing. -/
theorem attempt {y : Attempt α} (hs : s.KeepsBodies IsBody valid)
    (h : Leads Workspace.Bodiless y.run) (hV : ∀ a, (y.run s.workspace).1 = .ok a → V a) :
    Asks IsBody valid s (ofAttempt y) (ofAttempt y) (Silent V) :=
  silent ⟨hs.cache.of_bodiless (h s.workspace), hs.store⟩ hV fun _ => rfl

/-- So does what cannot fail. -/
theorem work {y : Work α} (hs : s.KeepsBodies IsBody valid) (h : Leads Workspace.Bodiless y) :
    Asks IsBody valid s (liftM y) (liftM y) (Silent fun _ => True) :=
  attempt hs (Leads.step h) fun _ _ => trivial

/-- Steps that ask for nothing do so one after the other. -/
theorem mapM {f : ι → Evaluation σ α} {f' : ι → Evaluation (σ × List ℕ) α} (l : List ι)
    (h : ∀ i t, t.KeepsBodies IsBody valid →
      Asks IsBody valid t (f i) (f' i) (Silent fun _ => True))
    (hs : s.KeepsBodies IsBody valid) :
    Asks IsBody valid s (l.mapM f) (l.mapM f') (Silent fun _ => True) := by
  induction l generalizing s with
  | nil => exact .pure hs ⟨rfl, fun _ _ => trivial⟩
  | cons i rest ih =>
    rw [List.mapM_cons, List.mapM_cons]
    refine (h i s hs).bindSilent (fun b t ht _ => ?_) silent_error
    refine (ih ht).bindSilent (fun bs u hu _ => ?_) silent_error
    exact .pure hu ⟨rfl, fun _ _ => trivial⟩

end Asks

/-! ## Bodies -/

/-- What is known of a step for an entity, which may ask for its body only if the key has some
property: what the step gives goes with the key. -/
def ForKey (p : ℕ → Bool) (V : ℕ → α → Prop) (k : ℕ) (outcome : Except Error α)
    (asked : List ℕ) : Prop :=
  asked.Sublist ([k].filter p) ∧ ∀ a, outcome = .ok a → V k a

section

variable {p : ℕ → Bool} {V : ℕ → α → Prop} {k : ℕ} {asked : List ℕ}

/-- What a step for an entity gives goes with the key. -/
theorem forKey_ok {a : α} (hasked : asked.Sublist ([k].filter p)) (ha : V k a) :
    ForKey p V k (.ok a) asked :=
  ⟨hasked, fun _ hsame => Except.ok.inj hsame ▸ ha⟩

/-- A step for an entity that fails gives nothing. -/
theorem forKey_error (e : Error) (hasked : asked.Sublist ([k].filter p)) :
    ForKey p V k (.error e) asked :=
  ⟨hasked, fun _ herror => by cases herror⟩

end

/-- Steps for some entities, each of which may leave its entity out, ask for the bodies of different
entities. -/
theorem Asks.filterMapM {s : EngineState σ} {p : ℕ → Bool} {V : ℕ → Option β → Prop}
    {f : ℕ → Evaluation σ (Option β)} {f' : ℕ → Evaluation (σ × List ℕ) (Option β)}
    (keys : List ℕ)
    (h : ∀ k ∈ keys, ∀ t, t.KeepsBodies IsBody valid →
      Asks IsBody valid t (f k) (f' k) (ForKey p V k))
    (hs : s.KeepsBodies IsBody valid) :
    Asks IsBody valid s (keys.filterMapM f) (keys.filterMapM f') fun outcome asked =>
      asked.Sublist (keys.filter p) ∧
        ∀ found, outcome = .ok found → ∃ answers, List.Forall₂ V keys answers ∧
          found = answers.reduceOption := by
  induction keys generalizing s with
  | nil => exact .pure hs ⟨.refl _, fun found hfound => ⟨[], .nil, (Except.ok.inj hfound).symm⟩⟩
  | cons k rest ih =>
    -- What is asked for the first key comes before what is asked for the others.
    have hcons {more asked : List ℕ} (hasked : asked.Sublist ([k].filter p))
        (hmore : more.Sublist (rest.filter p)) :
        (asked ++ more).Sublist ((k :: rest).filter p) := by
      rw [← List.singleton_append, List.filter_append]
      exact hasked.append hmore
    rw [List.filterMapM_cons, List.filterMapM_cons]
    refine (h k List.mem_cons_self s hs).bind (fun answer t _ ht asked hasked => ?_)
      fun e asked hasked => ⟨?_, fun _ herror => by cases herror⟩
    · have hrest := ih (fun k' hk' => h k' (List.mem_cons_of_mem k hk')) ht
      cases answer with
      | none =>
        refine hrest.mono fun outcome more hmore => ⟨hcons hasked.1 hmore.1, fun found hfound => ?_⟩
        obtain ⟨answers, hanswers, rfl⟩ := hmore.2 found hfound
        exact ⟨none :: answers, .cons (hasked.2 none rfl) hanswers, rfl⟩
      | some b =>
        refine hrest.bind (fun found u _ hu more hmore => .pure hu ?_) fun e more hmore => ?_
        · rw [List.append_nil]
          refine ⟨hcons hasked.1 hmore.1, fun found' hfound' => ?_⟩
          obtain ⟨answers, hanswers, rfl⟩ := hmore.2 found rfl
          exact ⟨some b :: answers, .cons (hasked.2 (some b) rfl) hanswers,
            (Except.ok.inj hfound').symm⟩
        · exact ⟨hcons hasked.1 hmore.1, fun _ herror => by cases herror⟩
    · have hnone := hcons hasked.1 (List.nil_sublist _)
      rwa [List.append_nil] at hnone

/-- Whether an answer is a body of an entity, if the entity is present, and nothing otherwise. -/
structure AnswerFor (present : ℕ → Bool) (IsBody : ℕ → Entity → Prop) (k : ℕ)
    (answer : Option Entity) : Prop where
  /-- There is an answer for the entities that are present. -/
  isSome : answer.isSome = present k
  /-- The answer is a body of the entity. -/
  isBody : ∀ e ∈ answer, IsBody k e

/-- A body answers for an entity that is present. -/
theorem AnswerFor.body {IsBody : ℕ → Entity → Prop} {k : ℕ} {e : Entity}
    (hpresent : present k = true) (hbody : IsBody k e) : AnswerFor present IsBody k (some e) :=
  ⟨hpresent.symm, fun _ he => Option.some.inj he ▸ hbody⟩

/-- Of answers to some keys, those that are bodies are the bodies of the keys that have one. -/
theorem AnswerFor.forall₂_reduceOption {IsBody : ℕ → Entity → Prop} {keys : List ℕ}
    {answers : List (Option Entity)} (h : List.Forall₂ (AnswerFor present IsBody) keys answers) :
    List.Forall₂ IsBody (keys.filter present) answers.reduceOption := by
  induction h with
  | nil => exact .nil
  | @cons k answer rest answers hanswer _ ih =>
    cases answer with
    | none =>
      have habsent : present k = false := hanswer.isSome.symm
      rw [List.filter_cons_of_neg (by simp [habsent]), List.reduceOption_cons_of_none]
      exact ih
    | some e =>
      have hpresent : present k = true := hanswer.isSome.symm
      rw [List.filter_cons_of_pos hpresent, List.reduceOption_cons_of_some]
      exact .cons (hanswer.isBody e rfl) ih

variable {storage : Storage σ} {s : EngineState σ} {scope : Scope} {n k version : ℕ}

/-- A body is fetched, and its key is taken down. -/
theorem fetch_asks (h : storage.Reads valid scope n present IsBody)
    (hversion : storage.version s.store scope.entityType k = some version)
    (hs : s.KeepsBodies IsBody valid) :
    Asks IsBody valid s (ofStored (storage.fetch scope.entityType k n))
      (ofStored (storage.logged.fetch scope.entityType k n)) fun outcome asked => asked = [k] ∧
        ∀ answer, outcome = .ok answer →
          ∃ e ∈ answer, IsBody scope k version e ∧ IsBody scope k e.version e :=
  ⟨⟨hs.cache, h.valid_fetch _ _ hs.store⟩, [k],
    ⟨rfl, fun _ hanswer => h.fetch _ _ _ _ hs.store hversion hanswer⟩, fun _ => rfl⟩

/-- A body is completed, and nothing is taken down. -/
theorem enrich_asks (h : storage.Reads valid scope n present IsBody)
    (hversion : storage.version s.store scope.entityType k = some version) {e : Entity}
    (hbody : IsBody scope k version e) (hs : s.KeepsBodies IsBody valid) :
    Asks IsBody valid s (ofStored (storage.enrich e n)) (ofStored (storage.logged.enrich e n))
      (Silent fun richer => ∀ e' ∈ richer, IsBody scope k version e') := by
  refine Asks.silent ⟨hs.cache, h.valid_enrich _ _ hs.store⟩ (fun richer hricher e' he' => ?_)
    fun _ => rfl
  obtain rfl : richer = some e' := he'
  exact h.enrich _ _ _ _ _ hs.store hversion hbody hricher

/-- A body arrives, and an observer of its entry is told. -/
theorem report_asks (hs : s.KeepsBodies IsBody valid) {observer : Option Observer}
    (hobserver : ∀ o ∈ observer, ∃ e, s.memory.entries[o.entry]? = some e ∧ e.key = bodyKey scope k)
    {body : Entity} (hbody : IsBody scope k body.version body) :
    let told : Work Unit :=
      modify fun w => { w with memory := BodySource.report observer (some body) w.memory }
    Asks IsBody valid s (liftM told) (liftM told) (Silent fun _ => True) :=
  Asks.silent ⟨hs.cache.report hobserver hbody, hs.store⟩ (fun _ _ => trivial) fun _ => rfl

/-- From where the cache says, the body of an entity in the version that the storage has is had. -/
theorem take_asks (h : storage.Reads valid scope n present IsBody)
    (hversion : storage.version s.store scope.entityType k = some version)
    (hs : s.KeepsBodies IsBody valid) {source : BodySource}
    (hsource : source.IsFor s.memory.entries ⟨scope, k, version⟩) :
    Asks IsBody valid s
      (source.take (ofStored (storage.fetch scope.entityType k n))
        fun cached => ofStored (storage.enrich cached n))
      (source.take (ofStored (storage.logged.fetch scope.entityType k n))
        fun cached => ofStored (storage.logged.enrich cached n))
      (ForKey (fun _ => true) (AnswerFor present (storage.IsCurrent valid IsBody scope)) k) := by
  have hpresent : present k = true := by
    rw [← h.version s.store k hs.store, hversion]
    rfl
  have hcurrent {e : Entity} (hbody : IsBody scope k version e) :
      AnswerFor present (storage.IsCurrent valid IsBody scope) k (some e) :=
    .body hpresent ⟨s.store, version, hs.store, hversion, hbody⟩
  unfold BodySource.take
  cases source with
  | cached body =>
    -- What was found is kept for the version that is asked for.
    obtain ⟨i, e, he, hkey, hpayload⟩ := hsource
    obtain ⟨hsame, hbody⟩ := hs.cache.bodies i e _ body scope k he hpayload hkey
    obtain rfl : version = body.version := Digest.word.inj hsame
    refine (enrich_asks h hversion hbody hs).bindSilent (fun richer t ht hricher => ?_)
      fun e => forKey_error e (List.nil_sublist _)
    refine .pure ht (forKey_ok (List.nil_sublist _) (hcurrent ?_))
    cases richer with
    | none => exact hbody
    | some e' => exact hricher e' rfl
  | storage observer =>
    refine (fetch_asks h hversion hs).bind (fun answer t hrun ht asked hasked => ?_)
      fun e asked hasked => forKey_error e (by rw [hasked.1]; exact .refl [k])
    obtain ⟨rfl, hanswer⟩ := hasked
    obtain ⟨body, hsome, hbody, htold⟩ := hanswer answer rfl
    obtain rfl : answer = some body := hsome
    -- The storage has changed only, so the observer still has its entry.
    have hmemory : t.memory = s.memory := by
      have hstate := congrArg (fun r => r.2.memory) hrun
      exact hstate.symm
    have hobserver : ∀ o ∈ observer,
        ∃ e, t.memory.entries[o.entry]? = some e ∧ e.key = bodyKey scope k := by
      rintro o rfl
      rw [hmemory]
      exact hsource
    exact (report_asks ht hobserver htold).bindSilent
      (fun _ u hu _ => .pure hu (forKey_ok (.refl _) (hcurrent hbody)))
      fun e => forKey_error e (.refl _)

/-- The body of an entity that is present is taken from the cache or fetched, and the storage is not
asked for any other. -/
theorem body_asks (h : storage.Reads valid scope n present IsBody)
    (hs : s.KeepsBodies IsBody valid) :
    Asks IsBody valid s (body storage scope n k) (body storage.logged scope n k)
      (ForKey (fun _ => true) (AnswerFor present (storage.IsCurrent valid IsBody scope)) k) := by
  unfold body
  refine Asks.look (fun log => rfl) ?_
  rcases hv : storage.version s.store scope.entityType k with - | version
  · have hv' : storage.logged.version (s.withLog []).store scope.entityType k = none := hv
    have habsent := h.version s.store k hs.store
    rw [hv] at habsent
    rw [hv']
    exact .pure hs (forKey_ok (List.nil_sublist _) ⟨habsent, fun e he => by cases he⟩)
  · have hv' : storage.logged.version (s.withLog []).store scope.entityType k = some version := hv
    rw [hv']
    let call : BodyCall := ⟨scope, k, version⟩
    have hfind : Leads Workspace.Bodiless call.find := fun w hw =>
      let ⟨htabled, hbodiless, _⟩ := hw.find call
      ⟨htabled, hbodiless⟩
    refine (Asks.work hs hfind).bind (fun source t hrun ht asked hasked => ?_)
      fun e asked hasked => forKey_error e (hasked.1 ▸ List.nil_sublist _)
    obtain ⟨rfl, -⟩ := hasked
    -- What is found belongs to the body, in the entries as they are then, and the storage has not
    -- changed.
    obtain ⟨-, -, hfor⟩ := hs.cache.tabled.find call
    have hstore : t.store = s.store := (congrArg (fun r => r.2.store) hrun).symm
    rw [← hstore] at hv
    obtain ⟨hvalue, hstate⟩ := Prod.mk.inj hrun
    obtain rfl := Except.ok.inj hvalue
    subst hstate
    exact take_asks h hv ht hfor

/-- Entities that are fetched first are present, each is asked for once, and their bodies are
kept. -/
theorem prefetch_asks (h : storage.Reads valid scope n present IsBody)
    (hs : s.KeepsBodies IsBody valid) (p : Prefetch) :
    Asks IsBody valid s (prefetch storage scope n p) (prefetch storage.logged scope n p)
      fun outcome asked => asked.Sublist p.keys.keys ∧ ∀ known, outcome = .ok known →
        ∀ q ∈ known, present q.1 = true ∧ storage.IsCurrent valid IsBody scope q.1 q.2 := by
  refine (Asks.filterMapM (p := fun _ => true) (V := fun _ found => ∀ q ∈ found,
      present q.1 = true ∧ storage.IsCurrent valid IsBody scope q.1 q.2)
    p.keys.keys (fun k _ t ht => ?_) hs).mono ?_
  · refine (body_asks h ht).bind (fun answer u _ hu asked hasked => ?_)
      fun e asked hasked => forKey_error e hasked.1
    obtain ⟨hasked, hanswer⟩ := hasked
    cases answer with
    | none => exact .pure hu (forKey_ok (by rwa [List.append_nil]) fun q hq => by cases hq)
    | some e =>
      refine .pure hu (forKey_ok (by rwa [List.append_nil]) fun q hq => ?_)
      -- What the predicate accepts is the body that was found.
      obtain ⟨-, hq⟩ := Option.ite_none_right_eq_some.mp hq
      obtain rfl := Option.some.inj hq
      exact ⟨(hanswer _ rfl).isSome.symm, (hanswer _ rfl).isBody e rfl⟩
  · rintro outcome asked ⟨hasked, hfound⟩
    rw [List.filter_true] at hasked
    refine ⟨hasked, fun known hknown q hq => ?_⟩
    obtain ⟨answers, hanswers, rfl⟩ := hfound known hknown
    have hall := (List.forall₂_and_left (R := fun _ _ => True) answers p.keys.keys).1
      (hanswers.flip.imp fun _ _ h => ⟨h, trivial⟩)
    exact hall.1 (some q) (List.reduceOption_mem_iff.mp hq) q rfl

/-- As long as keys are distinct, it makes no difference that a body that is known already is taken
out for its key. -/
theorem bodies_eq_filterMapM {keys : List ℕ} (hkeys : keys.Nodup)
    {left known : Std.HashMap ℕ Entity} (hleft : ∀ k ∈ keys, left[k]? = known[k]?) :
    bodies storage scope n left keys = keys.filterMapM (knownBody storage scope n known) := by
  induction keys generalizing left with
  | nil => rfl
  | cons k rest ih =>
    obtain ⟨hfresh, hrest⟩ := List.nodup_cons.mp hkeys
    obtain ⟨hfirst, hleft⟩ := List.forall_mem_cons.mp hleft
    -- What is taken out for the first key is not looked for again.
    have herase : ∀ k' ∈ rest, (left.erase k)[k']? = known[k']? := by
      intro k' hk'
      have hne : (k == k') = false := beq_false_of_ne fun hsame => hfresh (hsame ▸ hk')
      rw [Std.HashMap.getElem?_erase, hne, if_neg Bool.false_ne_true, hleft k' hk']
    have hsame : knownBody storage scope n left k = knownBody storage scope n known k := by
      rw [knownBody, knownBody, hfirst]
    rw [bodies, List.filterMapM_cons, hsame, ih hrest herase]
    refine congrArg (knownBody storage scope n known k >>= ·) (funext fun found => ?_)
    cases found with
    | none => exact bind_pure _
    | some e => rfl

/-- A body that is not known already is asked for. -/
theorem knownBody_asks (h : storage.Reads valid scope n present IsBody)
    (hs : s.KeepsBodies IsBody valid) {known : List (ℕ × Entity)}
    (hknown : ∀ q ∈ known,
      present q.1 = true ∧ storage.IsCurrent valid IsBody scope q.1 q.2) :
    Asks IsBody valid s (knownBody storage scope n (.ofList known) k)
      (knownBody storage.logged scope n (.ofList known) k)
      (ForKey (fun k => decide (k ∉ known.map (·.1)))
        (AnswerFor present (storage.IsCurrent valid IsBody scope)) k) := by
  unfold knownBody
  cases hlookup : (Std.HashMap.ofList known)[k]? with
  | none =>
    refine (body_asks h hs).mono fun outcome asked hasked => ⟨?_, hasked.2⟩
    have hunknown : k ∉ known.map (·.1) := by
      intro hk
      have hlisted : k ∈ Std.HashMap.ofList known :=
        Std.HashMap.mem_ofList.mpr (List.contains_iff_mem.mpr hk)
      rw [Std.HashMap.mem_iff_isSome_getElem?, hlookup] at hlisted
      cases hlisted
    have hasked := hasked.1
    rw [List.filter_true] at hasked
    rwa [List.filter_singleton, decide_eq_true hunknown]
  | some e =>
    obtain ⟨hpresent, hbody⟩ := hknown (k, e) (mem_of_getElem?_ofList hlookup)
    exact .pure hs (forKey_ok (List.nil_sublist _) (.body hpresent hbody))

/-- For distinct keys, bodies that are not known already are asked for once each, and what comes are
the bodies of the keys that have one. -/
theorem bodies_asks (h : storage.Reads valid scope n present IsBody)
    (hs : s.KeepsBodies IsBody valid) {known : List (ℕ × Entity)}
    (hknown : ∀ q ∈ known, present q.1 = true ∧ storage.IsCurrent valid IsBody scope q.1 q.2)
    {keys : List ℕ} (hkeys : keys.Nodup) :
    Asks IsBody valid s (bodies storage scope n (.ofList known) keys)
      (bodies storage.logged scope n (.ofList known) keys) fun outcome asked =>
        asked.Sublist (keys.filter fun k => decide (k ∉ known.map (·.1))) ∧
          ∀ entities, outcome = .ok entities →
            List.Forall₂ (storage.IsCurrent valid IsBody scope) (keys.filter present) entities := by
  rw [bodies_eq_filterMapM hkeys fun _ _ => rfl, bodies_eq_filterMapM hkeys fun _ _ => rfl]
  refine (Asks.filterMapM keys (fun k _ t ht => knownBody_asks h ht hknown) hs).mono ?_
  rintro outcome asked ⟨hasked, hfound⟩
  refine ⟨hasked, fun entities hentities => ?_⟩
  obtain ⟨answers, hanswers, rfl⟩ := hfound entities hentities
  exact AnswerFor.forall₂_reduceOption hanswers

end Evaluation

end EntityQuery
