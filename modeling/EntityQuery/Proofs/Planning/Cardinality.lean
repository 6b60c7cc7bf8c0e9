import EntityQuery.Proofs.Cache.Results
import EntityQuery.Proofs.Planning.Cheap
import EntityQuery.Proofs.Planning.Rewriting

/-!
# Bounds of results

A node bounds the size of its result before anything is computed, and each kind of node has a rule
of its own: listed keys, a snapshot and a cached result have a size, a conjunction takes the least
bound of its parts, a disjunction their saturating sum, a difference the bound of its superset, a
price filter that of its source. No rule looks at a result. By induction every formula computes no
more keys than its bound says (`Formula.Composed.size_result_le`).

The saturating sum is the one rule that may fall short of what it adds up. It is a bound all the
same, because a result is made of keys of entities (`Formula.Composed.ofEntities_result`), and there
are fewer of those than the largest word.

Whatever a formula is rewritten to is put together from keys of entities again, and so its bound is
right as well: a node over other parts (`Formula.Keyed.withChildren`), and what is planned with a
cache whose results are made of such keys (`PlanningPolicy.yields_plan`).
-/

namespace EntityQuery

/-- A union has no more keys than the sets have together. -/
theorem CandidateSet.size_unionAll_le (sets : List CandidateSet) :
    (unionAll sets).size ≤ (sets.map size).sum :=
  calc (unionAll sets).size ≤ (sets.flatMap (·.keys)).length := size_ofKeys_le _
    _ = (sets.map size).sum := List.length_flatMap

/-! ## Bounds -/

namespace Formula

/-- The bound of a conjunction is that of one of its parts. -/
theorem exists_cardinality_and (id : NodeId) {children : List Formula} (hne : children ≠ []) :
    ∃ c ∈ children, (and (andProfile id children) children).cardinality = c.cardinality := by
  have hsome : (children.map cardinality).min?.isSome := by
    rw [List.isSome_min?_iff]
    exact fun hnil => hne (List.map_eq_nil_iff.mp hnil)
  obtain ⟨n, hmin⟩ := Option.isSome_iff_exists.mp hsome
  obtain ⟨c, hc, rfl⟩ := List.mem_map.mp (List.min?_mem hmin)
  refine ⟨c, hc, ?_⟩
  show (children.map cardinality).min?.getD 0 = c.cardinality
  rw [hmin, Option.getD_some]

namespace Composed

variable {f : Formula}

/-- The result of a formula over keys of entities is made of keys of entities. -/
theorem ofEntities_result (h : f.Composed) (hkeys : f.Keyed) : f.result.OfEntities := by
  induction h with
  | empty => exact fun k hk => absurd hk (CandidateSet.not_mem_empty k)
  | constant => exact hkeys.listed
  | index => exact hkeys.indexed
  | cached => exact hkeys.remembered
  | and id hne _ ih =>
    intro k hk
    obtain ⟨c, hc⟩ := List.exists_mem_of_ne_nil _ hne
    exact ih c hc (hkeys.of_mem_children hc) k ((mem_result_and hne).mp hk c hc)
  | or id hne _ ih =>
    intro k hk
    obtain ⟨c, hc, hk⟩ := mem_result_or.mp hk
    exact ih c hc (hkeys.of_mem_children hc) k hk
  | not id _ _ _ ihg => exact fun k hk => ihg hkeys.superset k (mem_result_not.mp hk).1
  | price id _ _ ih => exact fun k hk => ih hkeys.source k (mem_result_price.mp hk).1
  | observed id cost _ _ ih => exact ih hkeys.inner

/-- The size of a result is a word. -/
theorem size_result_le_max (h : f.Composed) (hkeys : f.Keyed) : f.result.size ≤ Word.max :=
  (h.ofEntities_result hkeys).size_le.trans (by decide)

/-- A bound is a word. -/
theorem cardinality_le_max (h : f.Composed) (hkeys : f.Keyed) : f.cardinality ≤ Word.max := by
  induction h with
  | empty => exact Nat.zero_le _
  | constant id keys => exact size_result_le_max (.constant id keys) hkeys
  | index id hs => exact size_result_le_max (.index id hs) hkeys
  | cached id h hcached => exact size_result_le_max (.cached id h hcached) hkeys
  | and id hne _ ih =>
    obtain ⟨c, hc, hcardinality⟩ := exists_cardinality_and id hne
    rw [hcardinality]
    exact ih c hc (hkeys.of_mem_children hc)
  | @or id children _ _ _ =>
    show Word.satSum (children.map cardinality) ≤ Word.max
    rw [Word.satSum_eq_min]
    exact min_le_right ..
  | not id _ _ _ ihg => exact ihg hkeys.superset
  | price id _ _ ih => exact ih hkeys.source
  | observed id cost _ _ ih => exact ih hkeys.inner

/-- A result is no larger than the bound. -/
theorem size_result_le (h : f.Composed) (hkeys : f.Keyed) : f.result.size ≤ f.cardinality := by
  induction h with
  | empty | constant | index | cached => exact le_refl _
  | and id hne _ ih =>
    obtain ⟨c, hc, hcardinality⟩ := exists_cardinality_and id hne
    rw [hcardinality]
    calc _ ≤ c.result.size :=
          CandidateSet.size_le_of_subset fun k hk => (mem_result_and hne).mp hk c hc
      _ ≤ c.cardinality := ih c hc (hkeys.of_mem_children hc)
  | @or id children hne h ih =>
    -- The sum of the bounds is one, and if it is no word, the largest word is.
    have hword := size_result_le_max (.or id hne h) hkeys
    have hsum : (CandidateSet.unionAll (children.map result)).size
        ≤ (children.map cardinality).sum :=
      calc (CandidateSet.unionAll (children.map result)).size
          ≤ ((children.map result).map CandidateSet.size).sum := CandidateSet.size_unionAll_le _
        _ = (children.map fun c => c.result.size).sum := by rw [List.map_map]; rfl
        _ ≤ (children.map cardinality).sum :=
          List.sum_le_sum fun c hc => ih c hc (hkeys.of_mem_children hc)
    show _ ≤ Word.satSum (children.map cardinality)
    rw [Word.satSum_eq_min]
    exact le_min hsum hword
  | @not id f g _ _ _ ihg =>
    calc _ ≤ g.result.size :=
          CandidateSet.size_le_of_subset fun k hk => (mem_result_not.mp hk).1
      _ ≤ g.cardinality := ihg hkeys.superset
  | @price id source prices predicate _ _ ih =>
    calc _ ≤ source.result.size :=
          CandidateSet.size_le_of_subset fun k hk => (mem_result_price.mp hk).1
      _ ≤ source.cardinality := ih hkeys.source
  | observed id cost _ _ ih => exact ih hkeys.inner

end Composed

/-! ## Nodes over other parts -/

variable {f : Formula} {gs : List Formula}

/-- Over composed parts, however many, a node is composed. -/
theorem Composed.withChildren (h : f.Composed) (hparts : ∀ g ∈ gs, g.Composed) (m : Memory) :
    (f.withChildren gs m).1.Composed := by
  unfold Formula.withChildren
  split_ifs
  · exact h
  · split
    · exact .allOf hparts m
    · exact .anyOf hparts m
    · obtain ⟨hsubtracted, hothers⟩ := List.forall_mem_cons.mp hparts
      obtain ⟨hsuperset, -⟩ := List.forall_mem_cons.mp hothers
      exact .without hsubtracted hsuperset m
    · -- The price index stays the one that the node was composed with.
      obtain ⟨hsource, -⟩ := List.forall_mem_cons.mp hparts
      cases h with
      | price id h hprices => exact .pricedBy hsource hprices m
    · obtain ⟨hinner, -⟩ := List.forall_mem_cons.mp hparts
      exact .observed m.fresh _ hinner trivial
    · exact h

/-- Over parts over keys of entities a node is over keys of entities. -/
theorem Keyed.withChildren (h : f.Keyed) (hparts : ∀ g ∈ gs, g.Keyed) (m : Memory) :
    (f.withChildren gs m).1.Keyed := by
  unfold Formula.withChildren
  split_ifs
  · exact h
  · split
    · unfold allOf
      split_ifs with hempty
      · exact .empty _
      · exact .node (fun hnil => hempty (List.isEmpty_iff.mpr hnil)) hparts
    · unfold anyOf
      split_ifs with hempty
      · exact .empty _
      · exact .node (fun hnil => hempty (List.isEmpty_iff.mpr hnil)) hparts
    · obtain ⟨hsubtracted, hothers⟩ := List.forall_mem_cons.mp hparts
      obtain ⟨hsuperset, -⟩ := List.forall_mem_cons.mp hothers
      exact .pair rfl hsubtracted hsuperset
    · obtain ⟨hsource, -⟩ := List.forall_mem_cons.mp hparts
      exact .single rfl hsource
    · obtain ⟨hinner, -⟩ := List.forall_mem_cons.mp hparts
      exact .single rfl hinner
    · exact h

/-- Putting a node together leaves the entries alone. -/
theorem entries_withChildren (f : Formula) (gs : List Formula) (m : Memory) :
    (f.withChildren gs m).2.entries = m.entries := by
  unfold Formula.withChildren
  split_ifs
  · rfl
  · split
    · unfold allOf
      split_ifs <;> rfl
    · unfold anyOf
      split_ifs <;> rfl
    all_goals rfl

end Formula

/-! ## Results that are left -/

/-- Whether the results of filters that are left in entries are made of keys of entities. -/
def Entries.Keyed (entries : Entries) : Prop :=
  ∀ (i : EntryId) (snapshots : Digest) (keys : CandidateSet),
    entries.result? i = some (snapshots, .filter keys) → keys.OfEntities

/-- A report of such a result leaves such results. -/
theorem Entries.Keyed.report {entries : Entries} (h : entries.Keyed) (o : Observer)
    {computed : Computed} (hpayload : ∀ keys, computed.payload = .filter keys → keys.OfEntities) :
    Entries.Keyed (o.report computed entries) := by
  intro i snapshots keys hresult
  obtain ⟨e', he', hr⟩ := Option.bind_eq_some_iff.mp hresult
  obtain ⟨e, he, -, hkept | ⟨-, hreported⟩⟩ := of_report he' hr
  · exact h i snapshots keys (Option.bind_eq_some_iff.mpr ⟨e, he, hkept⟩)
  · exact hpayload keys (congrArg Prod.snd hreported).symm

namespace Formula

variable {f : Formula}

/-- Formulas that leave such results one by one do so together. -/
theorem keyed_visitAll {fs : List Formula}
    (h : ∀ f ∈ fs, ∀ m : Memory, m.entries.Keyed → (f.visit m).entries.Keyed) (m : Memory)
    (hm : m.entries.Keyed) : (visitAll fs m).entries.Keyed := by
  induction fs generalizing m with
  | nil => exact hm
  | cons f rest ih =>
    obtain ⟨hfirst, hrest⟩ := List.forall_mem_cons.mp h
    exact ih hrest _ (hfirst m hm)

namespace Composed

/-- Computing a formula over keys of entities leaves such results: observers are told of nothing
else. -/
theorem keyed_visit (h : f.Composed) (hkeys : f.Keyed) (m : Memory) (hm : m.entries.Keyed) :
    (f.visit m).entries.Keyed := by
  induction h generalizing m with
  | empty | constant | index | cached =>
    unfold visit
    split_ifs <;> exact hm
  | and id hne _ ih | or id hne _ ih =>
    unfold visit
    split_ifs
    · exact hm
    · exact keyed_visitAll (fun c hc => ih c hc (hkeys.of_mem_children hc)) m hm
  | not id _ _ ihf ihg =>
    unfold visit
    split_ifs
    · exact hm
    · exact ihg hkeys.superset _ (ihf hkeys.subtracted m hm)
  | price id _ _ ih =>
    unfold visit
    split_ifs
    · exact hm
    · exact ih hkeys.source m hm
  | observed id cost h _ ih =>
    unfold visit
    split_ifs
    · exact hm
    · -- What is reported is the result of what is observed.
      refine Entries.Keyed.report (ih hkeys.inner m hm) _ fun keys hreported => ?_
      obtain rfl := Payload.filter.inj hreported
      exact ofEntities_result h hkeys.inner

/-- A result that takes the place of a formula is made of keys of entities. -/
theorem keyed_toCachedForm (h : f.Composed) (hkeys : f.Keyed) (m : Memory)
    (hm : m.entries.Keyed) :
    (f.toCachedForm m).1.Keyed ∧ (f.toCachedForm m).2.entries.Keyed := by
  unfold toCachedForm
  split_ifs
  · exact ⟨hkeys, hm⟩
  · exact ⟨.cached _ (h.ofEntities_result hkeys), h.keyed_visit hkeys m hm⟩

/-- So it is where all that can be cached is computed. -/
theorem keyed_enforceCachedForm (h : f.Composed) (hkeys : f.Keyed) (m : Memory)
    (hm : m.entries.Keyed) :
    (f.enforceCachedForm m).1.Keyed ∧ (f.enforceCachedForm m).2.entries.Keyed := by
  induction h with
  | empty | constant | index | cached => exact ⟨hkeys, hm⟩
  | and id hne h => exact keyed_toCachedForm (.and id hne h) hkeys m hm
  | or id hne h => exact keyed_toCachedForm (.or id hne h) hkeys m hm
  | not id h h' => exact keyed_toCachedForm (.not id h h') hkeys m hm
  | price id h hprices => exact keyed_toCachedForm (.price id h hprices) hkeys m hm
  | observed id cost h ho ih =>
    obtain ⟨hinner, hleft⟩ := ih hkeys.inner
    refine ⟨hkeys.withChildren (List.forall_mem_singleton.mpr hinner) _, ?_⟩
    rw [← entries_withChildren _ [_] _] at hleft
    exact hleft

end Composed

end Formula

/-! ## Planning -/

namespace Workspace

open Formula

variable {α β : Type} {P : α → Prop} {Q : β → Prop} {scope : Scope} {f : Formula}

/-- Whether a computation, started with results over keys of entities, gives something with a
property and leaves such results. -/
def Yields (x : Work α) (P : α → Prop) : Prop :=
  ∀ w, w.memory.entries.Keyed → P (x w).1 ∧ (x w).2.memory.entries.Keyed

namespace Yields

/-- A value leaves the results as they are. -/
theorem pure {a : α} (h : P a) : Yields (Pure.pure a) P := fun _ hw => ⟨h, hw⟩

/-- One computation follows another. -/
theorem bind {x : Work α} {k : α → Work β} (hx : Yields x P) (hk : ∀ a, P a → Yields (k a) Q) :
    Yields (x >>= k) Q := by
  intro w hw
  obtain ⟨ha, hw'⟩ := hx w hw
  exact hk _ ha _ hw'

/-- What only uses the memory. -/
theorem ofRun {x : Run α}
    (h : ∀ m, m.entries.Keyed → P (x m).1 ∧ (x m).2.entries.Keyed) :
    Yields (liftM x : Work α) P := fun w hw => h w.memory hw

end Yields

/-- The result of a filter that the cache has is made of keys of entities. -/
theorem yields_consult (scope : Scope) (kind : RecordKind) (content snapshots : Digest)
    (cost : ℕ) : Yields (consult scope kind content snapshots cost) fun answer =>
      ∀ keys, answer = some (.hit (.filter keys)) → keys.OfEntities := by
  intro w hw
  rcases consult_cases scope kind content snapshots cost w with hrun | ⟨t, -, hrun⟩
  · rw [hrun]
    exact ⟨fun keys hhit => absurd hhit (Option.some_ne_none _).symm, hw⟩
  · rw [hrun]
    refine ⟨fun keys hhit => ?_, fun i recorded keys hresult => ?_⟩
    · obtain ⟨i, hi⟩ := Table.exists_result_of_hit (Option.some.inj hhit)
      exact hw i snapshots keys hi
    · -- The lookup has reported nothing, so the result was there before.
      have hunreported := t.unreported_lookup w.memory.entries (recordKey scope kind content) kind
        snapshots
      exact hw i recorded keys ((hunreported.result?_eq i).symm.trans hresult)

/-- What the cache puts in the place of a formula is over keys of entities. -/
theorem yields_substitute {live : Work Formula} (hlive : Yields live Keyed) :
    Yields (substitute scope f live) Keyed := by
  have hobserved (o : Observer) : Yields (do liftM (Formula.observe (← live) o f.cost)) Keyed :=
    hlive.bind fun g hg => .ofRun fun _ hm => ⟨.single rfl hg, hm⟩
  have hconsulted := yields_consult scope .filter f.digest f.snapshotsDigest f.cost
  refine hconsulted.bind fun answer hanswer => ?_
  rcases answer with - | (payload | i | i | -)
  · exact hlive
  · cases payload with
    | filter keys => exact .ofRun fun _ hm => ⟨.cached _ (hanswer keys rfl), hm⟩
    | _ => exact hlive
  · exact hobserved _
  · exact hobserved _
  · exact hlive

mutual

/-- A formula over keys of entities is rewritten to one. -/
theorem yields_analyseNode (scope : Scope) (f : Formula) (h : f.Keyed) :
    Yields (analyseNode scope f) Keyed := by
  have hrebuilt {gs : List Formula} (hgs : ∀ g ∈ gs, g.Keyed) :
      Yields (liftM (f.withChildren gs)) Keyed := by
    refine .ofRun fun m hm => ⟨h.withChildren hgs m, ?_⟩
    rwa [entries_withChildren]
  match f with
  | .empty _ | .constant _ _ | .index _ _ | .cached _ _ => exact .pure h
  | .and p children | .or p children =>
    have hparts := yields_analyseNodes scope children fun c hc => h.of_mem_children hc
    exact yields_substitute (hparts.bind fun gs hgs => hrebuilt hgs)
  | .not p subtracted superset =>
    have hsubtracted := yields_analyseNode scope subtracted h.subtracted
    have hsuperset := yields_analyseNode scope superset h.superset
    refine yields_substitute (hsubtracted.bind fun g hg => hsuperset.bind fun g' hg' => ?_)
    exact hrebuilt (List.forall_mem_cons.mpr ⟨hg, List.forall_mem_singleton.mpr hg'⟩)
  | .price p source prices predicate =>
    have hsource := yields_analyseNode scope source h.source
    exact yields_substitute (hsource.bind fun g hg => hrebuilt (List.forall_mem_singleton.mpr hg))
  | .observed p inner observer savedCost =>
    have hinner := yields_analyseNode scope inner h.inner
    exact hinner.bind fun g hg => hrebuilt (List.forall_mem_singleton.mpr hg)

/-- Formulas over keys of entities are rewritten to such formulas. -/
theorem yields_analyseNodes (scope : Scope) (fs : List Formula) (h : ∀ f ∈ fs, f.Keyed) :
    Yields (analyseNodes scope fs) fun gs => ∀ g ∈ gs, g.Keyed := by
  match fs with
  | [] => exact .pure fun g hg => absurd hg List.not_mem_nil
  | f :: rest =>
    have hfirst := yields_analyseNode scope f (h f List.mem_cons_self)
    have hrest := yields_analyseNodes scope rest fun c hc => h c (List.mem_cons_of_mem f hc)
    exact hfirst.bind fun g hg => hrest.bind fun gs hgs =>
      .pure (List.forall_mem_cons.mpr ⟨hg, hgs⟩)

end

/-- So it is with a cache or without one. -/
theorem yields_analyse (scope : Scope) (h : f.Keyed) : Yields (analyse scope f) Keyed := by
  intro w hw
  rcases henabled : w.supervisor.isEnabled with - | -
  · rw [analyse_disabled henabled]
    exact ⟨h, hw⟩
  · rw [analyse_enabled henabled]
    exact yields_analyseNode scope f h w hw

end Workspace

/-- What is planned over keys of entities, with a cache whose results are made of such keys, is over
keys of entities, and the cache goes on with such results. -/
theorem PlanningPolicy.yields_plan (policy : PlanningPolicy) (scope : Scope) {f : Formula}
    (h : f.Composed) (hkeys : f.Keyed) : Workspace.Yields (policy.plan scope f) Formula.Keyed := by
  match policy with
  | .default => exact Workspace.yields_analyse scope hkeys
  | .cacheEnforcing => exact .ofRun (h.keyed_enforceCachedForm hkeys)
  | .prefetchFavouring => exact .pure hkeys

namespace Formula

/-- Whether the bound of a formula is a word that no result exceeds, whatever has been computed
before. -/
structure Bounded (f : Formula) : Prop where
  /-- No result has more keys than the bound says. -/
  size_le : ∀ m, (f.compute m).1.size ≤ f.cardinality
  /-- The bound is a word. -/
  cardinality_le : f.cardinality ≤ Word.max

variable {f : Formula}

/-- Every composed formula over keys of entities is bounded. -/
theorem Composed.bounded (h : f.Composed) (hkeys : f.Keyed) : f.Bounded :=
  ⟨fun _ => h.size_result_le hkeys, h.cardinality_le_max hkeys⟩

/-- The estimated size of a result is an upper bound. It is one for every formula over keys of
entities, with results from the cache and observers anywhere in it, and it stays one when the
formula is rewritten: when a node is put over other parts, and when the formula is planned by any
policy, with a cache in any state. What comes out can be rewritten again, and whatever is computed
or planned leaves the cache such results as it had. -/
theorem Composed.compute_size_le (h : f.Composed) (hkeys : f.Keyed) :
    f.Bounded ∧ (∀ m, m.entries.Keyed → (f.compute m).2.entries.Keyed)
      ∧ (∀ parts, (∀ c ∈ parts, c.Composed ∧ c.Keyed) → ∀ m,
        let g := (f.withChildren parts m).1
        g.Composed ∧ g.Keyed ∧ g.Bounded)
      ∧ ∀ (policy : PlanningPolicy) scope (w : Workspace), w.memory.entries.Keyed →
        let g := (policy.plan scope f w).1
        g.Composed ∧ g.Keyed ∧ g.Bounded ∧ (policy.plan scope f w).2.memory.entries.Keyed := by
  refine ⟨h.bounded hkeys, h.keyed_visit hkeys, fun parts hparts m => ?_,
    fun policy scope w hw => ?_⟩
  · have hcomposed := h.withChildren (fun c hc => (hparts c hc).1) m
    have hkeyed := hkeys.withChildren (fun c hc => (hparts c hc).2) m
    exact ⟨hcomposed, hkeyed, hcomposed.bounded hkeyed⟩
  · have hcomposed := (policy.within_plan scope h w).1.composed
    obtain ⟨hkeyed, hleft⟩ := policy.yields_plan scope h hkeys w hw
    exact ⟨hcomposed, hkeyed, hcomposed.bounded hkeyed, hleft⟩

/-- A formula together with itself, over and over. -/
def doubled (f : Formula) : ℕ → Formula
  | 0 => f
  | n + 1 => or (orProfile (f.id + n + 1) [f.doubled n, f.doubled n]) [f.doubled n, f.doubled n]

/-- Doubling a formula adds no key. -/
theorem mem_result_doubled (f : Formula) (n k : ℕ) : k ∈ (f.doubled n).result ↔ k ∈ f.result := by
  induction n with
  | zero => rfl
  | succ n ih => simp [doubled, mem_result_or, ih]

/-- Doubling a formula doubles its bound, up to the largest word. -/
theorem cardinality_doubled (hmax : f.cardinality ≤ Word.max) (n : ℕ) :
    (f.doubled n).cardinality = min (f.cardinality * 2 ^ n) Word.max := by
  induction n with
  | zero => simp [doubled, hmax]
  | succ n ih =>
    show Word.satSum [(f.doubled n).cardinality, (f.doubled n).cardinality] = _
    rw [Word.satSum_eq_min, ih, pow_succ, ← mul_assoc, List.sum_cons, List.sum_singleton]
    omega

/-- A doubled formula is composed when the formula is. -/
theorem Composed.doubled (h : f.Composed) (n : ℕ) : (f.doubled n).Composed := by
  induction n with
  | zero => exact h
  | succ n ih =>
    exact .or _ (List.cons_ne_nil _ _)
      (List.forall_mem_cons.mpr ⟨ih, List.forall_mem_singleton.mpr ih⟩)

/-- A doubled formula is over keys of entities when the formula is. -/
theorem Keyed.doubled (h : f.Keyed) (n : ℕ) : (f.doubled n).Keyed := by
  induction n with
  | zero => exact h
  | succ n ih =>
    exact .pair rfl ih ih

/-- The bound of a formula that has been doubled often is the largest word, and its result is a
single key. -/
theorem compute_size_le_doubled :
    let keys : CandidateSet := ⟨[7], List.pairwise_singleton _ _⟩
    let source := constant (constantProfile 0 keys) keys
    let f := source.doubled 64
    let parts := [cached (cachedProfile 1 source keys) keys,
      observed (observedProfile 2 source) source (.recording 0) 1]
    let entries : Entries :=
      #[{ kind := .filter, key := .unordered [], payload := some (.unordered [], .filter keys) }]
    let w : Workspace := ⟨⟨{}, some { options := {} }⟩, { fresh := 100, entries }⟩
    (f.Composed ∧ f.Keyed) ∧ (∀ c ∈ parts, c.Composed ∧ c.Keyed) ∧ entries.Keyed
      ∧ (f.cardinality = Word.max ∧ (f.compute w.memory).1 = keys) ∧ f.Bounded
      ∧ (f.withChildren parts w.memory).1.Bounded
      ∧ (PlanningPolicy.default.plan ⟨"shop", "product"⟩ f w).1.Bounded := by
  intro keys source f parts entries w
  have hkeys : keys.OfEntities := fun k hk => List.mem_singleton.mp hk ▸ by decide
  have hsource : source.Composed := .constant 0 keys
  have hleaf : source.Keyed := .constant _ hkeys
  have hcomposed : f.Composed := hsource.doubled 64
  have hkeyed : f.Keyed := hleaf.doubled 64
  have hparts : ∀ c ∈ parts, c.Composed ∧ c.Keyed := by
    have hobserved : (observed (observedProfile 2 source) source (.recording 0) 1).Keyed :=
      .single rfl hleaf
    exact List.forall_mem_cons.mpr ⟨⟨.cached 1 hsource trivial, .cached _ hkeys⟩,
      List.forall_mem_singleton.mpr ⟨.observed 2 1 hsource trivial, hobserved⟩⟩
  have hentries : entries.Keyed := by
    intro i snapshots left hleft
    obtain ⟨e, he, hpayload⟩ := Option.bind_eq_some_iff.mp hleft
    obtain rfl := Array.mem_singleton.mp (Array.mem_of_getElem? he)
    obtain rfl := Payload.filter.inj (congrArg Prod.snd (Option.some.inj hpayload))
    exact hkeys
  have hcardinality : f.cardinality = Word.max :=
    calc f.cardinality = min (source.cardinality * 2 ^ 64) Word.max :=
          cardinality_doubled (by decide) 64
      _ = Word.max := min_eq_right (by decide)
  have hresult : f.result = keys := CandidateSet.ext_iff_mem.mpr (mem_result_doubled source 64)
  obtain ⟨hbounded, -, hrebuilt, hplanned⟩ := hcomposed.compute_size_le hkeyed
  obtain ⟨-, -, hparted⟩ := hrebuilt parts hparts w.memory
  obtain ⟨-, -, hanalysed, -⟩ := hplanned .default ⟨"shop", "product"⟩ w hentries
  exact ⟨⟨hcomposed, hkeyed⟩, hparts, hentries, ⟨hcardinality, hresult⟩, hbounded, hparted,
    hanalysed⟩

end Formula

end EntityQuery
