import EntityQuery.Formula.Compute
import Mathlib.Tactic

/-!
# Formulas as they are built

A formula carries a profile, and nothing in its type says that the profile is the one that its kind
of node is built with. `Formula.Built` says so, for the formula and all its parts: every node has
the profile of its kind, a cached result carries what the computation carries that it stands for,
and an observed computation carries what the computation itself does. What has to hold of leaves,
composite nodes, cached results and observers besides is a parameter (`Provenance`), and what is
built under one provenance is built under every wider one (`Formula.Built.mono`).

The constructors put formulas together from parts. `Formula.Made` says what they make, from leaves
of some provenance, and all of it is built (`Formula.Made.built`).

Computing a formula touches the memory in two ways only: nodes are marked as computed, and outcomes
are reported to observers (`Formula.Built.visit_rel`).

Rewriting a node over other parts compares two lists of formulas one by one. What the comparison
gives for each pair, it gives for the lists (`Formula.map_eq_of_forall₂` and the like). What
identifies a formula, its digest and the snapshots that it reads (`Formula.SameIdentity`), is the
same for nodes of one kind whose parts agree in it.
-/

namespace EntityQuery

/-- What is asked of the nodes of formulas besides the profiles that they carry. -/
structure Provenance where
  /-- What is asked of an index snapshot. -/
  snapshot : IndexSnapshot → Prop
  /-- What is asked of a price index and a predicate on its prices. -/
  prices : PriceIndex → AmountPredicate → Prop
  /-- Whether conjunctions and disjunctions may have no parts. -/
  partless : Prop
  /-- What is asked of a computation and the keys that were cached for it. -/
  cached : Formula → CandidateSet → Prop
  /-- What is asked of an observer and the computation that it observes. -/
  observer : Observer → Formula → Prop

/-- Only of cached keys something is asked: they are the result of the computation. -/
def Provenance.any : Provenance where
  snapshot _ := True
  prices _ _ := True
  partless := True
  cached f keys := keys = f.result
  observer _ _ := True

/-- Whatever satisfies the one provenance satisfies the other. -/
structure Provenance.Le (p q : Provenance) : Prop where
  /-- Snapshots of the one satisfy the other. -/
  snapshot : ∀ s, p.snapshot s → q.snapshot s
  /-- So do price indexes with predicates. -/
  prices : ∀ prices predicate, p.prices prices predicate → q.prices prices predicate
  /-- So do nodes without parts. -/
  partless : p.partless → q.partless
  /-- So do cached keys. -/
  cached : ∀ f keys, p.cached f keys → q.cached f keys
  /-- So do observers. -/
  observer : ∀ o inner, p.observer o inner → q.observer o inner

namespace Formula

/-- A formula whose nodes carry what their kinds are built with. -/
inductive Built (p : Provenance) : Formula → Prop
  /-- No key. -/
  | empty (id : NodeId) : Built p (.empty (emptyProfile id))
  /-- Listed keys. -/
  | constant (id : NodeId) (keys : CandidateSet) :
    Built p (.constant (constantProfile id keys) keys)
  /-- An index snapshot. -/
  | index (id : NodeId) {s : IndexSnapshot} (hs : p.snapshot s) :
    Built p (.index (indexProfile id s) s)
  /-- A conjunction. -/
  | and (id : NodeId) {children : List Formula} (hne : children = [] → p.partless)
    (h : ∀ c ∈ children, Built p c) : Built p (.and (andProfile id children) children)
  /-- A disjunction. -/
  | or (id : NodeId) {children : List Formula} (hne : children = [] → p.partless)
    (h : ∀ c ∈ children, Built p c) : Built p (.or (orProfile id children) children)
  /-- A difference. -/
  | not (id : NodeId) {f g : Formula} (hf : Built p f) (hg : Built p g) :
    Built p (.not (notProfile id f g) f g)
  /-- A price filter. -/
  | price (id : NodeId) {source : Formula} {prices : PriceIndex} {predicate : AmountPredicate}
    (h : Built p source) (hp : p.prices prices predicate) :
    Built p (.price (priceProfile id source prices predicate) source prices predicate)
  /-- Keys in the place of a computation. -/
  | cached (id : NodeId) {f : Formula} {keys : CandidateSet} (h : Built p f)
    (hkeys : p.cached f keys) : Built p (.cached (cachedProfile id f keys) keys)
  /-- An observed computation. -/
  | observed (id : NodeId) {inner : Formula} {o : Observer} (cost : ℕ) (h : Built p inner)
    (ho : p.observer o inner) : Built p (.observed (observedProfile id inner) inner o cost)

namespace Built

variable {p q : Provenance}

/-- What is built under a provenance is built under every wider one. -/
theorem mono (hpq : p.Le q) {f : Formula} (h : f.Built p) : f.Built q := by
  induction h with
  | empty id => exact .empty id
  | constant id keys => exact .constant id keys
  | index id hs => exact .index id (hpq.snapshot _ hs)
  | and id hne _ ih => exact .and id (hpq.partless ∘ hne) ih
  | or id hne _ ih => exact .or id (hpq.partless ∘ hne) ih
  | not id _ _ ihf ihg => exact .not id ihf ihg
  | price id _ hp ih => exact .price id ih (hpq.prices _ _ hp)
  | cached id _ hkeys ih => exact .cached id ih (hpq.cached _ _ hkeys)
  | observed id cost _ ho ih => exact .observed id cost ih (hpq.observer _ _ ho)

/-- The filter that no key passes is built. -/
theorem nothing (m : Memory) : (Formula.nothing m).1.Built p := .empty m.fresh

/-- The filter that listed keys pass is built. -/
theorem ofKeys (keys : CandidateSet) (m : Memory) : (Formula.ofKeys keys m).1.Built p :=
  .constant m.fresh keys

/-- The filter that the keys of an index pass is built. -/
theorem ofIndex {s : IndexSnapshot} (hs : p.snapshot s) (m : Memory) :
    (Formula.ofIndex s m).1.Built p := .index m.fresh hs

/-- The filter of the keys that pass all parts is built. -/
theorem allOf {children : List Formula} (h : ∀ c ∈ children, c.Built p) (m : Memory) :
    (Formula.allOf children m).1.Built p := by
  unfold Formula.allOf
  split_ifs with hempty
  · exact nothing m
  · exact .and m.fresh (fun hnil => absurd (hnil ▸ rfl) hempty) h

/-- The filter of the keys that pass some part is built. -/
theorem anyOf {children : List Formula} (h : ∀ c ∈ children, c.Built p) (m : Memory) :
    (Formula.anyOf children m).1.Built p := by
  unfold Formula.anyOf
  split_ifs with hempty
  · exact nothing m
  · exact .or m.fresh (fun hnil => absurd (hnil ▸ rfl) hempty) h

/-- The filter of the keys that pass one part and not the other is built. -/
theorem without {f g : Formula} (hf : f.Built p) (hg : g.Built p) (m : Memory) :
    (Formula.without f g m).1.Built p := .not m.fresh hf hg

/-- The filter of the keys with an accepted price is built. -/
theorem pricedBy {source : Formula} {prices : PriceIndex} {predicate : AmountPredicate}
    (h : source.Built p) (hp : p.prices prices predicate) (m : Memory) :
    (Formula.pricedBy source prices predicate m).1.Built p := .price m.fresh h hp

/-- Computing formulas one after the other relates memories as computing each of them does. -/
theorem visitAll_rel {R : Memory → Memory → Prop} (hrefl : ∀ m, R m m)
    (htrans : ∀ {a b c}, R a b → R b c → R a c) {fs : List Formula}
    (h : ∀ f ∈ fs, ∀ m, R m (f.visit m)) (m : Memory) : R m (visitAll fs m) := by
  induction fs generalizing m with
  | nil => exact hrefl m
  | cons f rest ih =>
    have hrest : ∀ g ∈ rest, ∀ m, R m (g.visit m) := fun g hg => h g (List.mem_cons_of_mem f hg)
    exact htrans (h f List.mem_cons_self m) (ih hrest (f.visit m))

/-- What marking nodes and reporting outcomes cannot break, computing a formula cannot break. -/
theorem visit_rel {R : Memory → Memory → Prop} (hrefl : ∀ m, R m m)
    (htrans : ∀ {a b c}, R a b → R b c → R a c) (hmark : ∀ m id, R m (m.markComputed id))
    (hreport : ∀ m id inner o cost, Built p inner → p.observer o inner →
      R m (m.report (some o) (outcome (observedProfile id inner) inner cost)))
    {f : Formula} (h : f.Built p) (m : Memory) : R m (f.visit m) := by
  -- Parts are computed before the whole is marked, and only an observed node reports.
  induction h generalizing m with
  | empty id | constant id keys | index id hs | cached id _ hkeys ih =>
    unfold visit
    split_ifs
    · exact hrefl m
    · exact hmark m _
  | and id hne _ ih | or id hne _ ih =>
    unfold visit
    split_ifs
    · exact hrefl m
    · exact htrans (visitAll_rel hrefl htrans ih m) (hmark _ _)
  | not id _ _ ihf ihg =>
    unfold visit
    split_ifs
    · exact hrefl m
    · exact htrans (htrans (ihf m) (ihg _)) (hmark _ _)
  | price id _ _ ih =>
    unfold visit
    split_ifs
    · exact hrefl m
    · exact htrans (ih m) (hmark _ _)
  | observed id cost hinner ho ih =>
    unfold visit
    split_ifs
    · exact hrefl m
    · exact htrans (htrans (ih m) (hreport _ id _ _ cost hinner ho)) (hmark _ _)

/-- Computing a formula places nothing. -/
theorem placements_visit {f : Formula} (h : f.Built p) (m : Memory) :
    (f.visit m).placements = m.placements :=
  h.visit_rel (R := fun m m' => m'.placements = m.placements) (fun _ => rfl)
    (fun hab hbc => hbc.trans hab) (fun _ _ => rfl) (fun _ _ _ _ _ _ _ => rfl) m

end Built

/-! ## What the constructors make -/

/-- A formula that was put together by the constructors, from leaves of some provenance. -/
inductive Made (p : Provenance) : Formula → Prop
  /-- No key. -/
  | nothing (m : Memory) : Made p (Formula.nothing m).1
  /-- Listed keys. -/
  | ofKeys (keys : CandidateSet) (m : Memory) : Made p (Formula.ofKeys keys m).1
  /-- An index snapshot. -/
  | ofIndex {s : IndexSnapshot} (hs : p.snapshot s) (m : Memory) : Made p (Formula.ofIndex s m).1
  /-- A conjunction. -/
  | allOf {children : List Formula} (h : ∀ c ∈ children, Made p c) (m : Memory) :
    Made p (Formula.allOf children m).1
  /-- A disjunction. -/
  | anyOf {children : List Formula} (h : ∀ c ∈ children, Made p c) (m : Memory) :
    Made p (Formula.anyOf children m).1
  /-- A difference. -/
  | without {f g : Formula} (hf : Made p f) (hg : Made p g) (m : Memory) :
    Made p (Formula.without f g m).1
  /-- A price filter, where the predicate can be used on the prices. -/
  | priced {source f : Formula} {prices : PriceIndex} {predicate : AmountPredicate} {m : Memory}
    (h : Made p source) (hp : p.prices prices predicate)
    (hf : (Formula.priced source prices predicate m).1 = .ok f) : Made p f

/-- What the constructors make is built. -/
theorem Made.built {p : Provenance} {f : Formula} (h : f.Made p) : f.Built p := by
  induction h with
  | nothing m => exact .nothing m
  | ofKeys keys m => exact .ofKeys keys m
  | ofIndex hs m => exact .ofIndex hs m
  | allOf _ m ih => exact .allOf ih m
  | anyOf _ m ih => exact .anyOf ih m
  | without _ _ m ihf ihg => exact .without ihf ihg m
  | @priced source f prices predicate m _ hp hf ih =>
    -- A predicate that cannot be used gives no filter.
    unfold Formula.priced at hf
    rcases hcheck : prices.check predicate with e | ok
    · rw [hcheck] at hf
      exact absurd hf nofun
    · rw [hcheck] at hf
      obtain rfl : (Formula.pricedBy source prices predicate m).1 = f := Except.ok.inj hf
      exact .pricedBy ih hp m

/-! ## Lists of formulas -/

section Pairwise

variable {R : Formula → Formula → Prop} {fs gs : List Formula}

/-- Where formulas are related one by one, those on the right have what being related gives them. -/
theorem forall_of_forall₂ {P : Formula → Prop} (hP : ∀ f g, R f g → P g)
    (h : List.Forall₂ R fs gs) : ∀ g ∈ gs, P g := by
  induction h with
  | nil => exact fun g hg => absurd hg List.not_mem_nil
  | cons hfg _ ih =>
    intro g hg
    rcases List.mem_cons.1 hg with rfl | hg
    · exact hP _ _ hfg
    · exact ih g hg

/-- Formulas that agree one by one in what they carry agree in it as lists. -/
theorem map_eq_of_forall₂ {β : Type} (φ : Formula → β) (hφ : ∀ f g, R f g → φ g = φ f)
    (h : List.Forall₂ R fs gs) : gs.map φ = fs.map φ := by
  induction h with
  | nil => rfl
  | cons hfg _ ih => rw [List.map_cons, List.map_cons, hφ _ _ hfg, ih]

/-- So they do in the snapshots that they read together. -/
theorem compositeSnapshots_eq_of_forall₂ (hR : ∀ f g, R f g → g.snapshots = f.snapshots)
    (h : List.Forall₂ R fs gs) : compositeSnapshots gs = compositeSnapshots fs := by
  unfold compositeSnapshots
  rw [List.flatMap_def, List.flatMap_def, map_eq_of_forall₂ Formula.snapshots hR h]

end Pairwise

/-! ## What identifies a formula -/

/-- Whether two formulas have the same digest and read the same snapshots. -/
structure SameIdentity (f g : Formula) : Prop where
  /-- They are made of the same. -/
  digest : g.digest = f.digest
  /-- They read the same snapshots. -/
  snapshots : g.snapshots = f.snapshots

namespace SameIdentity

variable {f g h : Formula} {fs gs : List Formula}

/-- A formula has its own identity. -/
theorem refl (f : Formula) : f.SameIdentity f := ⟨rfl, rfl⟩

/-- Identity is passed on from one rewriting to the next. -/
theorem trans (hfg : f.SameIdentity g) (hgh : g.SameIdentity h) : f.SameIdentity h :=
  ⟨hgh.digest.trans hfg.digest, hgh.snapshots.trans hfg.snapshots⟩

/-- The versions that are read are identified in the same way. -/
theorem snapshotsDigest (h : f.SameIdentity g) : g.snapshotsDigest = f.snapshotsDigest := by
  rw [Formula.snapshotsDigest, h.snapshots]
  rfl

/-- Parts with the same identities have the same digests. -/
theorem map_digest (h : List.Forall₂ SameIdentity fs gs) :
    gs.map Formula.digest = fs.map Formula.digest :=
  map_eq_of_forall₂ _ (fun _ _ h => h.digest) h

/-- They read the same snapshots together. -/
theorem compositeSnapshots (h : List.Forall₂ SameIdentity fs gs) :
    Formula.compositeSnapshots gs = Formula.compositeSnapshots fs :=
  compositeSnapshots_eq_of_forall₂ (fun _ _ h => h.snapshots) h

/-- Conjunctions of parts with the same identities have the same identity. -/
theorem and (id id' : NodeId) (h : List.Forall₂ SameIdentity fs gs) :
    SameIdentity (.and (andProfile id fs) fs) (.and (andProfile id' gs) gs) where
  digest := congrArg (fun parts => Digest.tagged 0x04 (Digest.unorderedPart parts)) (map_digest h)
  snapshots := compositeSnapshots h

/-- So do disjunctions. -/
theorem or (id id' : NodeId) (h : List.Forall₂ SameIdentity fs gs) :
    SameIdentity (.or (orProfile id fs) fs) (.or (orProfile id' gs) gs) where
  digest := congrArg (fun parts => Digest.tagged 0x05 (Digest.unorderedPart parts)) (map_digest h)
  snapshots := compositeSnapshots h

/-- So do differences. -/
theorem not (id id' : NodeId) {f' g' : Formula} (h : f.SameIdentity g) (h' : f'.SameIdentity g') :
    SameIdentity (.not (notProfile id f f') f f') (.not (notProfile id' g g') g g') where
  digest := congrArg (fun parts => Digest.tagged 0x06 (Digest.orderedPart parts))
    (map_digest (.cons h (.cons h' .nil)))
  snapshots := compositeSnapshots (.cons h (.cons h' .nil))

/-- So do price filters with one predicate over one price index. -/
theorem price (id id' : NodeId) {prices : PriceIndex} {predicate : AmountPredicate}
    (h : f.SameIdentity g) :
    SameIdentity (.price (priceProfile id f prices predicate) f prices predicate)
      (.price (priceProfile id' g prices predicate) g prices predicate) where
  digest := congrArg (fun d => Digest.tagged 0x07 [d, .word prices.id, predicate.digest]) h.digest
  snapshots := congrArg (fun s => Digest.sortDistinct (s ++ [prices.digest])) h.snapshots

end SameIdentity

end Formula

end EntityQuery
