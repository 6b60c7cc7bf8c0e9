import EntityQuery.Planning
import EntityQuery.Proofs.Formula.Built
import EntityQuery.Proofs.Formula.Meaning

/-!
# Rewriting keeps identities

Planning rewrites a formula: results from the cache take the places of nodes, observers are put
around nodes, and the nodes above are put together anew over the parts that come out. What
identifies a node stays the same through all of this, its digest and the snapshots that it reads
(`Formula.SameIdentity`). A node over parts with the same identities has the same identity
(`Formula.Composed.sameIdentity_withChildren`), and neither a cached result nor an observer changes
that of what it takes the place of.

So a formula may be planned again and again, by any policies and with the cache in any state
(`Formula.Planned`). It is looked up as before, and so is a count of facets over it. What is looked
up in it are nodes of the formula that was planned first, since nodes go away only
(`Formula.Composed.identity_planned`).
-/

namespace EntityQuery

namespace Formula

/-! ## Nodes over other parts -/

/-- What a node over other parts is like: the parts are these, it can be cached if the node can be,
it is composed where the parts are, and it has the same identity where the parts do. -/
structure Rebuilt (f : Formula) (gs : List Formula) (g : Formula) : Prop where
  /-- The parts are these. -/
  children : g.children = gs
  /-- It can be cached if the node can be. -/
  isCacheable : g.isCacheable = f.isCacheable
  /-- It is composed where the parts are. -/
  composed : (∀ c ∈ gs, c.Composed) → g.Composed
  /-- It has the same identity where the parts do. -/
  sameIdentity : List.Forall₂ SameIdentity f.children gs → f.SameIdentity g

namespace Rebuilt

variable {f f' g g' : Formula} {fs gs : List Formula}

/-- A conjunction is rebuilt over some parts. -/
theorem and (id : NodeId) (hne : gs ≠ []) (m : Memory) :
    Rebuilt (.and (andProfile id fs) fs) gs (allOf gs m).1 := by
  have hrun : (allOf gs m).1 = .and (andProfile m.fresh gs) gs := by
    cases gs with
    | nil => exact absurd rfl hne
    | cons => rfl
  rw [hrun]
  exact ⟨rfl, rfl, .and m.fresh hne, .and id m.fresh⟩

/-- So is a disjunction. -/
theorem or (id : NodeId) (hne : gs ≠ []) (m : Memory) :
    Rebuilt (.or (orProfile id fs) fs) gs (anyOf gs m).1 := by
  have hrun : (anyOf gs m).1 = .or (orProfile m.fresh gs) gs := by
    cases gs with
    | nil => exact absurd rfl hne
    | cons => rfl
  rw [hrun]
  exact ⟨rfl, rfl, .or m.fresh hne, .or id m.fresh⟩

/-- A difference is rebuilt over two parts. -/
theorem not (id : NodeId) (m : Memory) :
    Rebuilt (.not (notProfile id f f') f f') [g, g'] (without g g' m).1 where
  children := rfl
  isCacheable := rfl
  composed hc := .without (hc g (by simp)) (hc g' (by simp)) m
  sameIdentity hparts := by
    obtain - | ⟨hsubtracted, - | ⟨hsuperset, -⟩⟩ := hparts
    exact .not id m.fresh hsubtracted hsuperset

/-- A price filter is rebuilt over one part. -/
theorem price (id : NodeId) {prices : PriceIndex} {predicate : AmountPredicate}
    (hprices : prices.WellFormed) (m : Memory) :
    Rebuilt (.price (priceProfile id f prices predicate) f prices predicate) [g]
      (pricedBy g prices predicate m).1 where
  children := rfl
  isCacheable := rfl
  composed hc := .pricedBy (hc g (by simp)) hprices m
  sameIdentity hparts := by
    obtain - | ⟨hsource, -⟩ := hparts
    exact .price id m.fresh hsource

/-- An observed computation is rebuilt over one part. -/
theorem observed (id : NodeId) (o : Observer) (cost : ℕ) (m : Memory) :
    Rebuilt (.observed (observedProfile id f) f o cost) [g] (observe g o cost m).1 where
  children := rfl
  isCacheable := rfl
  composed hc := .observed m.fresh cost (hc g (by simp)) trivial
  sameIdentity hparts := by
    obtain - | ⟨hinner, -⟩ := hparts
    exact ⟨hinner.digest, hinner.snapshots⟩

end Rebuilt

/-- Over other parts, of which there are as many, a node is rebuilt or stays what it is. -/
theorem Composed.rebuilt_withChildren {f : Formula} (h : f.Composed) {gs : List Formula}
    (hlength : gs.length = f.children.length) (m : Memory) :
    (f.withChildren gs m).1 = f ∨ f.Rebuilt gs (f.withChildren gs m).1 := by
  unfold withChildren
  by_cases hsame : sameObjects f.children gs = true
  · rw [if_pos hsame]
    exact .inl rfl
  · rw [if_neg hsame]
    refine .inr ?_
    -- With as many parts as before, there are some where there were.
    have hgs (hne : f.children ≠ []) : gs ≠ [] := fun hnil =>
      hne (List.length_eq_zero_iff.1 (hlength.symm.trans (List.length_eq_zero_iff.2 hnil)))
    cases h with
    | and id hne _ => exact .and id (hgs hne) m
    | or id hne _ => exact .or id (hgs hne) m
    | not id _ _ =>
      obtain ⟨g, g', rfl⟩ := List.length_eq_two.1 hlength
      exact .not id m
    | price id _ hprices =>
      obtain ⟨g, rfl⟩ := List.length_eq_one_iff.1 hlength
      exact .price id hprices m
    | observed id cost _ _ =>
      obtain ⟨g, rfl⟩ := List.length_eq_one_iff.1 hlength
      exact .observed id _ cost m
    | empty | constant | index | cached =>
      -- Leaves have no parts that could be others.
      obtain rfl := List.length_eq_zero_iff.1 hlength
      exact absurd rfl hsame

/-- Over parts with the same identities a node has the same identity. -/
theorem Composed.sameIdentity_withChildren {f : Formula} (h : f.Composed) {gs : List Formula}
    (hparts : List.Forall₂ SameIdentity f.children gs) (m : Memory) :
    f.SameIdentity (f.withChildren gs m).1 := by
  rcases h.rebuilt_withChildren hparts.length_eq.symm m with hsame | hrebuilt
  · rw [hsame]
    exact .refl f
  · exact hrebuilt.sameIdentity hparts

/-! ## What is looked up -/

mutual

/-- The nodes of a formula that can be looked up, from the root down: their digests, and what
identifies the versions that they read. -/
def lookups : Formula → List (Digest × Digest)
  | and p children =>
    ((and p children).digest, (and p children).snapshotsDigest) :: lookupsAll children
  | or p children =>
    ((or p children).digest, (or p children).snapshotsDigest) :: lookupsAll children
  | not p f g => ((not p f g).digest, (not p f g).snapshotsDigest) :: (lookups f ++ lookups g)
  | price p source prices predicate =>
    ((price p source prices predicate).digest, (price p source prices predicate).snapshotsDigest)
      :: lookups source
  | observed _ inner _ _ => lookups inner
  | empty _ | constant _ _ | index _ _ | cached _ _ => []

/-- The nodes of some formulas that can be looked up, from left to right. -/
def lookupsAll : List Formula → List (Digest × Digest)
  | [] => []
  | f :: rest => lookups f ++ lookupsAll rest

end

/-- A node is looked up if it can be cached, and so are the nodes of its parts. -/
theorem lookups_eq (f : Formula) :
    f.lookups = (if f.isCacheable = true then [(f.digest, f.snapshotsDigest)] else [])
      ++ lookupsAll f.children := by
  cases f <;> simp [lookups, lookupsAll, isCacheable, children]

/-- What the nodes of a part look up is looked up by the whole. -/
theorem lookups_sublist_lookupsAll {c : Formula} {fs : List Formula} (hc : c ∈ fs) :
    c.lookups.Sublist (lookupsAll fs) := by
  induction fs with
  | nil => exact absurd hc List.not_mem_nil
  | cons f rest ih =>
    rw [lookupsAll]
    rcases List.mem_cons.1 hc with rfl | hc
    · exact List.sublist_append_left _ _
    · exact (ih hc).trans (List.sublist_append_right _ _)

/-- Whether a formula comes out of another by putting results and observers in: it has the same
identity, and no more is looked up in it. -/
structure RewritesTo (f g : Formula) : Prop extends SameIdentity f g where
  /-- It is composed. -/
  composed : g.Composed
  /-- What is looked up in it was looked up before. -/
  lookups : g.lookups.Sublist f.lookups

namespace RewritesTo

variable {f g h : Formula} {fs gs : List Formula}

/-- A composed formula is a rewriting of itself. -/
theorem refl (hf : f.Composed) : f.RewritesTo f := ⟨.refl f, hf, .refl _⟩

/-- A rewriting of a rewriting is one of the formula itself. -/
theorem trans (hfg : f.RewritesTo g) (hgh : g.RewritesTo h) : f.RewritesTo h :=
  ⟨hfg.toSameIdentity.trans hgh.toSameIdentity, hgh.composed, hgh.lookups.trans hfg.lookups⟩

/-- A result takes the place of a formula. -/
theorem cached (hf : f.Composed) (id : NodeId) (keys : CandidateSet) :
    f.RewritesTo (.cached (cachedProfile id f keys) keys) :=
  ⟨⟨rfl, rfl⟩, .cached id hf trivial, List.nil_sublist _⟩

/-- An observer is put around a formula. -/
theorem observed (hfg : f.RewritesTo g) (id : NodeId) (o : Observer) (cost : ℕ) :
    f.RewritesTo (.observed (observedProfile id g) g o cost) :=
  ⟨⟨hfg.digest, hfg.snapshots⟩, .observed id cost hfg.composed trivial, hfg.lookups⟩

/-- In what formulas are rewritten to, no more is looked up. -/
theorem lookupsAll_sublist (hparts : List.Forall₂ RewritesTo fs gs) :
    (lookupsAll gs).Sublist (lookupsAll fs) := by
  induction hparts with
  | nil => exact .refl _
  | cons hfg _ ih => exact hfg.lookups.append ih

/-- A node is rewritten by rewriting its parts. -/
theorem withChildren (hf : f.Composed) (hparts : List.Forall₂ RewritesTo f.children gs)
    (m : Memory) : f.RewritesTo (f.withChildren gs m).1 := by
  have hsame : List.Forall₂ SameIdentity f.children gs := hparts.imp fun _ _ h => h.toSameIdentity
  have hidentity := hf.sameIdentity_withChildren hsame m
  rcases hf.rebuilt_withChildren hparts.length_eq.symm m with hstays | hrebuilt
  · rw [hstays]
    exact .refl hf
  · refine ⟨hidentity, hrebuilt.composed (forall_of_forall₂ (fun _ _ h => h.composed) hparts), ?_⟩
    rw [lookups_eq f, lookups_eq (f.withChildren gs m).1, hrebuilt.children, hrebuilt.isCacheable,
      hidentity.digest, hidentity.snapshotsDigest]
    exact (List.Sublist.refl _).append (lookupsAll_sublist hparts)

end RewritesTo

end Formula

namespace Workspace

/-- What the cache follows under a key. -/
def slot? (w : Workspace) (key : Digest) : Option Slot :=
  w.supervisor.table.bind (·.slots.lookup key)

variable {α β : Type} {keys : List Digest} {P : α → Prop} {Q : β → Prop}

/-- Whether a computation gives something with a property, and leaves what the cache follows under
keys other than some alone. -/
def Within (keys : List Digest) (x : Work α) (P : α → Prop) : Prop :=
  ∀ w, P (x w).1 ∧ ∀ key ∉ keys, (x w).2.slot? key = w.slot? key

namespace Within

/-- Nothing is looked up. -/
theorem pure {a : α} (h : P a) : Within keys (Pure.pure a) P := fun _ => ⟨h, fun _ _ => rfl⟩

/-- One computation follows another. -/
theorem bind {x : Work α} {k : α → Work β} (hx : Within keys x P)
    (hk : ∀ a, P a → Within keys (k a) Q) : Within keys (x >>= k) Q := by
  intro w
  obtain ⟨ha, hslots⟩ := hx w
  obtain ⟨hb, hslots'⟩ := hk _ ha (x w).2
  exact ⟨hb, fun key hkey => (hslots' key hkey).trans (hslots key hkey)⟩

/-- What only uses the memory looks nothing up. -/
theorem ofRun {x : Run α} (h : ∀ m, P (x m).1) : Within keys (liftM x : Work α) P :=
  fun w => ⟨h w.memory, fun _ _ => rfl⟩

end Within

/-- A computation is looked up under its key. -/
theorem within_consult {scope : Scope} {kind : RecordKind} {content : Digest}
    (hkey : recordKey scope kind content ∈ keys) (snapshots : Digest) (cost : ℕ) :
    Within keys (consult scope kind content snapshots cost) fun _ => True := by
  intro w
  refine ⟨trivial, fun key hmem => ?_⟩
  rcases consult_cases scope kind content snapshots cost w with hrun | ⟨t, htable, hrun⟩
  · rw [hrun]
  · have hne : key ≠ recordKey scope kind content := fun h => hmem (h ▸ hkey)
    have hslots := Table.slots_lookup_of_ne (t := t) hne w.memory.entries kind snapshots
    rw [hrun, slot?, slot?, htable]
    exact hslots

open Formula

/-- The keys under which the nodes of some look-ups are found. -/
def keysOf (scope : Scope) (lookups : List (Digest × Digest)) : List Digest :=
  lookups.map fun l => recordKey scope .filter l.1

variable {scope : Scope} {f : Formula}

/-- What the cache puts in the place of a formula is a rewriting of it, where the formula over its
analysed parts is. -/
theorem within_substitute {live : Work Formula} (hf : f.Composed)
    (hkey : recordKey scope .filter f.digest ∈ keys) (hlive : Within keys live f.RewritesTo) :
    Within keys (substitute scope f live) f.RewritesTo := by
  have hobserved (o : Observer) :
      Within keys (do liftM (Formula.observe (← live) o f.cost)) f.RewritesTo :=
    hlive.bind fun g hg => .ofRun fun m => hg.observed m.fresh o f.cost
  refine (within_consult hkey f.snapshotsDigest f.cost).bind fun answer _ => ?_
  rcases answer with - | (payload | i | i | -)
  · exact hlive
  · cases payload with
    | filter keys => exact .ofRun fun m => .cached hf m.fresh keys
    | _ => exact hlive
  · exact hobserved _
  · exact hobserved _
  · exact hlive

/-- Formulas are rewritten one after the other. -/
theorem within_analyseNodes {fs : List Formula}
    (h : ∀ f ∈ fs, Within keys (analyseNode scope f) f.RewritesTo) :
    Within keys (analyseNodes scope fs) (List.Forall₂ RewritesTo fs) := by
  induction fs with
  | nil => exact .pure .nil
  | cons f rest ih =>
    refine (h f List.mem_cons_self).bind fun g hg => ?_
    refine (ih fun c hc => h c (List.mem_cons_of_mem f hc)).bind fun gs hgs => ?_
    exact .pure (.cons hg hgs)

/-- A node that can be cached is looked up under its key. -/
theorem key_mem_keysOf (hcacheable : f.isCacheable = true)
    (hkeys : keysOf scope f.lookups ⊆ keys) : recordKey scope .filter f.digest ∈ keys := by
  refine hkeys (List.mem_map.2 ⟨(f.digest, f.snapshotsDigest), ?_, rfl⟩)
  rw [lookups_eq, if_pos hcacheable]
  exact List.mem_append_left _ (List.mem_singleton_self _)

/-- What is looked up in a part is looked up in the whole. -/
theorem keysOf_part (hkeys : keysOf scope f.lookups ⊆ keys) {c : Formula} (hc : c ∈ f.children) :
    keysOf scope c.lookups ⊆ keys := by
  refine List.Subset.trans (List.map_subset _ ?_) hkeys
  rw [lookups_eq f]
  exact ((lookups_sublist_lookupsAll hc).trans (List.sublist_append_right _ _)).subset

/-- A formula is rewritten, and only its nodes are looked up. -/
theorem within_analyseNode (scope : Scope) (hf : f.Composed)
    (hkeys : keysOf scope f.lookups ⊆ keys) : Within keys (analyseNode scope f) f.RewritesTo := by
  -- A node is looked up itself, and its parts are rewritten by induction.
  induction hf with
  | empty id => exact .pure (.refl (.empty id))
  | constant id keys => exact .pure (.refl (.constant id keys))
  | index id hs => exact .pure (.refl (.index id hs))
  | cached id hf hcached => exact .pure (.refl (.cached id hf hcached))
  | and id hne h ih =>
    have hf : Composed _ := .and id hne h
    have hparts := within_analyseNodes fun c hc => ih c hc (keysOf_part hkeys hc)
    refine within_substitute hf (key_mem_keysOf rfl hkeys) (hparts.bind fun gs hgs => ?_)
    exact .ofRun fun m => .withChildren hf hgs m
  | or id hne h ih =>
    have hf : Composed _ := .or id hne h
    have hparts := within_analyseNodes fun c hc => ih c hc (keysOf_part hkeys hc)
    refine within_substitute hf (key_mem_keysOf rfl hkeys) (hparts.bind fun gs hgs => ?_)
    exact .ofRun fun m => .withChildren hf hgs m
  | not id h h' ih ih' =>
    have hf : Composed _ := .not id h h'
    have hsubtracted := ih (keysOf_part hkeys List.mem_cons_self)
    have hsuperset := ih' (keysOf_part hkeys (List.mem_cons_of_mem _ List.mem_cons_self))
    refine within_substitute hf (key_mem_keysOf rfl hkeys) (hsubtracted.bind fun g hg => ?_)
    refine hsuperset.bind fun g' hg' => ?_
    exact .ofRun fun m => .withChildren hf (.cons hg (.cons hg' .nil)) m
  | price id h hprices ih =>
    have hf : Composed _ := .price id h hprices
    have hsource := ih (keysOf_part hkeys List.mem_cons_self)
    refine within_substitute hf (key_mem_keysOf rfl hkeys) (hsource.bind fun g hg => ?_)
    exact .ofRun fun m => .withChildren hf (.cons hg .nil) m
  | observed id cost h ho ih =>
    have hf : Composed _ := .observed id cost h ho
    refine (ih (keysOf_part hkeys List.mem_cons_self)).bind fun g hg => ?_
    exact .ofRun fun m => .withChildren hf (.cons hg .nil) m

/-- So it is with a cache or without one. -/
theorem within_analyse (scope : Scope) (hf : f.Composed) :
    Within (keysOf scope f.lookups) (analyse scope f) f.RewritesTo := by
  intro w
  rcases henabled : w.supervisor.isEnabled with - | -
  · rw [analyse_disabled henabled]
    exact ⟨.refl hf, fun _ _ => rfl⟩
  · rw [analyse_enabled henabled]
    exact within_analyseNode scope hf (List.Subset.refl _) w

end Workspace

namespace Formula

/-- A formula is rewritten to the result that takes its place. -/
theorem Composed.toCachedForm_rewrites {f : Formula} (h : f.Composed) (m : Memory) :
    f.RewritesTo (f.toCachedForm m).1 := by
  unfold toCachedForm
  split_ifs
  · exact .refl h
  · exact .cached h _ _

/-- A formula is rewritten where all that can be cached is computed. -/
theorem Composed.enforceCachedForm_rewrites {f : Formula} (h : f.Composed) (m : Memory) :
    f.RewritesTo (f.enforceCachedForm m).1 := by
  induction h with
  | empty id => exact .refl (.empty id)
  | constant id keys => exact .refl (.constant id keys)
  | index id hs => exact .refl (.index id hs)
  | cached id hf hcached => exact .refl (.cached id hf hcached)
  | and id hne h => exact toCachedForm_rewrites (.and id hne h) m
  | or id hne h => exact toCachedForm_rewrites (.or id hne h) m
  | not id h h' => exact toCachedForm_rewrites (.not id h h') m
  | price id h hprices => exact toCachedForm_rewrites (.price id h hprices) m
  | observed id cost h ho ih => exact .withChildren (.observed id cost h ho) (.cons ih .nil) _

end Formula

namespace PlanningPolicy

open Formula

/-- What is planned is a rewriting of the formula, and only nodes of the formula are looked up. -/
theorem within_plan (policy : PlanningPolicy) (scope : Scope) {f : Formula} (h : f.Composed) :
    Workspace.Within (Workspace.keysOf scope f.lookups) (policy.plan scope f) f.RewritesTo := by
  match policy with
  | .default => exact Workspace.within_analyse scope h
  | .cacheEnforcing => exact .ofRun h.enforceCachedForm_rewrites
  | .prefetchFavouring => exact .pure (.refl h)

end PlanningPolicy

namespace Formula

/-- Whether a formula comes out of another by planning, any number of times. -/
inductive Planned : Formula → Formula → Prop
  | refl (f : Formula) : Planned f f
  | plan {f g : Formula} (policy : PlanningPolicy) (scope : Scope) (w : Workspace) :
    Planned f g → Planned f (policy.plan scope g w).1

/-- Planning rewrites, any number of times. -/
theorem Composed.rewrites_planned {f g : Formula} (h : f.Composed) (hplanned : Planned f g) :
    f.RewritesTo g := by
  induction hplanned with
  | refl => exact .refl h
  | plan policy scope w _ ih => exact ih.trans (policy.within_plan scope ih.composed w).1

/-- A count of facets over a formula with the same identity has the same identity. -/
theorem SameIdentity.ofFilter {f g : Formula} (h : f.SameIdentity g) (buckets : List FacetBucket)
    (m m' : Memory) :
    (FacetCount.ofFilter g buckets m').1.digest = (FacetCount.ofFilter f buckets m).1.digest
      ∧ (FacetCount.ofFilter g buckets m').1.snapshotsDigest
        = (FacetCount.ofFilter f buckets m).1.snapshotsDigest := by
  constructor
  · show Digest.tagged 0x20 (g.digest :: _) = Digest.tagged 0x20 (f.digest :: _)
    rw [h.digest]
  · show Digest.unordered (g.snapshots ++ _) = Digest.unordered (f.snapshots ++ _)
    rw [h.snapshots]

/-- Planning keeps identities. A formula that was planned, any number of times, has the digest and
the snapshots that it had, and so has a count of facets over it. Any of its nodes keeps them over
parts that keep theirs. Whatever policy plans it again, nothing is looked up but nodes that the
formula had before. -/
theorem Composed.identity_planned {f g : Formula} (h : f.Composed) (hplanned : Planned f g) :
    g.digest = f.digest ∧ g.snapshots = f.snapshots
      ∧ (∀ buckets m m',
        let count := (FacetCount.ofFilter f buckets m).1
        let count' := (FacetCount.ofFilter g buckets m').1
        count'.digest = count.digest ∧ count'.snapshotsDigest = count.snapshotsDigest)
      ∧ (∀ parts, List.Forall₂ SameIdentity g.children parts → ∀ m,
        let node := (g.withChildren parts m).1
        node.digest = g.digest ∧ node.snapshots = g.snapshots
          ∧ node.snapshotsDigest = g.snapshotsDigest)
      ∧ g.lookups.Sublist f.lookups
      ∧ ∀ (policy : PlanningPolicy) scope w key,
        (∀ l ∈ f.lookups, key ≠ recordKey scope .filter l.1) →
          (policy.plan scope g w).2.slot? key = w.slot? key := by
  have hrewrites := h.rewrites_planned hplanned
  refine ⟨hrewrites.digest, hrewrites.snapshots, ?_, ?_, hrewrites.lookups, ?_⟩
  · exact hrewrites.toSameIdentity.ofFilter
  · intro parts hparts m
    have hnode := hrewrites.composed.sameIdentity_withChildren hparts m
    exact ⟨hnode.digest, hnode.snapshots, hnode.snapshotsDigest⟩
  · intro policy scope w key hkey
    refine (policy.within_plan scope hrewrites.composed w).2 key fun hmem => ?_
    obtain ⟨l, hl, hlookup⟩ := List.mem_map.1 hmem
    exact hkey l (hrewrites.lookups.subset hl) hlookup.symm

/-- With an empty cache that follows everything, a formula is observed at first and computed at once
then. It is looked up as before, and so it is when the result takes the place of its part. -/
theorem identity_planned_cheapRemembered :
    let options : CacheOptions := { minimalCost := 0 }
    let w : Workspace := ⟨⟨options, some { options }⟩, { fresh := 5 }⟩
    let scope : Scope := ⟨"shop", "product"⟩
    let observed := (PlanningPolicy.default.plan scope cheapRemembered w).1
    let computed := (PlanningPolicy.cacheEnforcing.plan scope observed w).1
    let part := and (andProfile 3 [cheap, remembered]) [cheap, remembered]
    let result := cached (cachedProfile 6 part (.ofKeys [2])) (.ofKeys [2])
    computed.digest = cheapRemembered.digest ∧ computed.snapshots = cheapRemembered.snapshots
      ∧ (cheapRemembered.withChildren [result] w.memory).1.digest = cheapRemembered.digest
      ∧ (PlanningPolicy.default.plan scope computed w).2.slot? (.word 0) = w.slot? (.word 0) := by
  intro options w scope observed computed part result
  have hplanned : Planned cheapRemembered computed := .plan _ scope w (.plan _ scope w (.refl _))
  obtain ⟨hdigest, hsnapshots, -, -, -, hslots⟩ :=
    composed_cheapRemembered.identity_planned hplanned
  obtain ⟨-, -, -, hnode, -⟩ := composed_cheapRemembered.identity_planned (.refl _)
  have hpart : part.SameIdentity result := ⟨rfl, rfl⟩
  refine ⟨hdigest, hsnapshots, (hnode [result] (.cons hpart .nil) w.memory).1, ?_⟩
  exact hslots .default scope w (.word 0) fun l _ => by simp [recordKey, Digest.ofList]

end Formula

end EntityQuery
