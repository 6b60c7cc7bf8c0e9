import EntityQuery.Cache.Analysis
import EntityQuery.Entity
import EntityQuery.Proofs.Formula.Meaning

/-!
# Cheap formulas leave the cache alone

The cache is not asked for a node that costs too little, but the parts of such a node are analysed
all the same. That none of them is looked up either rests on their costs: a node costs no less than
any of its parts (`Formula.Composed.cost_le_of_mem_children`). Costs are added up as saturating
words, so this needs that the cost of each part is a word, and it is because an index holds no more
keys than there are (`Formula.Composed.cost_le_max`).

When nothing is looked up, the parts come back as they are, and over the same parts a node stays
what it is. So a formula below the threshold comes back itself, and the cache and the memory are not
touched at all (`Formula.Composed.analyse_of_cheap`).
-/

namespace EntityQuery

/-! ## Saturating sums -/

namespace Word

/-- A saturating sum is the sum, or the largest word. -/
theorem satSum_eq_min (words : List ℕ) : satSum words = min words.sum max := by
  have hfrom (a : ℕ) (ha : a ≤ max) : words.foldl satAdd a = min (a + words.sum) max := by
    induction words generalizing a with
    | nil => simp [ha]
    | cons w rest ih =>
      rw [List.foldl_cons, ih _ (satAdd_le_max a w), List.sum_cons, satAdd]
      omega
  rw [satSum, hfrom 0 (Nat.zero_le _), Nat.zero_add]

/-- A saturating sum of words is at least each of them. -/
theorem le_satSum {words : List ℕ} {w : ℕ} (hw : w ∈ words) (hmax : w ≤ max) :
    w ≤ satSum words := by
  rw [satSum_eq_min]
  exact le_min (List.le_sum_of_mem hw) hmax

end Word

/-! ## Sizes of sets -/

namespace CandidateSet

/-- A set has no more keys than a list that has all of them. -/
theorem size_le_of_subset {s : CandidateSet} {keys : List ℕ} (h : ∀ k ∈ s, k ∈ keys) :
    s.size ≤ keys.length :=
  (s.nodup_keys.subperm h).length_le

/-- A set of keys below a bound is no larger than the bound. -/
theorem size_le {s : CandidateSet} {n : ℕ} (h : ∀ k ∈ s, k < n) : s.size ≤ n := by
  have hlength := size_le_of_subset fun k hk => List.mem_range.mpr (h k hk)
  rwa [List.length_range] at hlength

/-- A set has no more keys than the list that it is made from. -/
theorem size_ofKeys_le (keys : List ℕ) : (ofKeys keys).size ≤ keys.length :=
  size_le_of_subset fun _ => mem_ofKeys.mp

end CandidateSet

/-! ## Costs -/

/-- Whether all keys of a set can be keys of entities. -/
def CandidateSet.OfEntities (s : CandidateSet) : Prop := ∀ k ∈ s, k < Entity.keyBound

/-- The keys of a list that can be keys of entities. -/
theorem CandidateSet.OfEntities.ofKeys {keys : List ℕ} (h : ∀ k ∈ keys, k < Entity.keyBound) :
    OfEntities (.ofKeys keys) :=
  fun k hk => h k (mem_ofKeys.mp hk)

/-- There are no more of them than there can be entities. -/
theorem CandidateSet.OfEntities.size_le {s : CandidateSet} (h : s.OfEntities) :
    s.size ≤ Entity.keyBound := CandidateSet.size_le h

namespace Formula

/-- Whether the keys that the leaves of a formula hold can be keys of entities. -/
inductive Keyed : Formula → Prop
  | empty (p : Profile) : Keyed (.empty p)
  | constant (p : Profile) {keys : CandidateSet} (h : keys.OfEntities) : Keyed (.constant p keys)
  | index (p : Profile) {s : IndexSnapshot} (h : s.keys.OfEntities) : Keyed (.index p s)
  | cached (p : Profile) {keys : CandidateSet} (h : keys.OfEntities) : Keyed (.cached p keys)
  /-- Any other node is made of such parts. -/
  | node {f : Formula} (hne : f.children ≠ []) (h : ∀ c ∈ f.children, Keyed c) : Keyed f

/-- The parts of such a formula are such formulas. -/
theorem Keyed.of_mem_children {f : Formula} (h : f.Keyed) {c : Formula} (hc : c ∈ f.children) :
    c.Keyed := by
  cases h with
  | node _ h => exact h c hc
  | empty | constant | index | cached => exact absurd hc List.not_mem_nil

namespace Keyed

variable {p : Profile} {f g c : Formula} {keys : CandidateSet} {s : IndexSnapshot}

/-- A node is such a formula if its only part is. -/
theorem single (hchildren : f.children = [c]) (h : c.Keyed) : f.Keyed := by
  refine .node (by simp [hchildren]) ?_
  rw [hchildren]
  exact List.forall_mem_singleton.mpr h

/-- So is one with two such parts. -/
theorem pair (hchildren : f.children = [c, g]) (h : c.Keyed) (hg : g.Keyed) : f.Keyed := by
  refine .node (by simp [hchildren]) ?_
  rw [hchildren]
  exact List.forall_mem_cons.mpr ⟨h, List.forall_mem_singleton.mpr hg⟩

/-- Listed keys are keys of entities. -/
theorem listed (h : (Formula.constant p keys).Keyed) : keys.OfEntities := by
  cases h with
  | constant _ hkeys => exact hkeys
  | node hne => exact absurd rfl hne

/-- So are the keys of an index. -/
theorem indexed (h : (Formula.index p s).Keyed) : s.keys.OfEntities := by
  cases h with
  | index _ hkeys => exact hkeys
  | node hne => exact absurd rfl hne

/-- So are keys from the cache. -/
theorem remembered (h : (Formula.cached p keys).Keyed) : keys.OfEntities := by
  cases h with
  | cached _ hkeys => exact hkeys
  | node hne => exact absurd rfl hne

/-- What is subtracted is over keys of entities. -/
theorem subtracted (h : (Formula.not p f g).Keyed) : f.Keyed := h.of_mem_children List.mem_cons_self

/-- So is what it is subtracted from. -/
theorem superset (h : (Formula.not p f g).Keyed) : g.Keyed :=
  h.of_mem_children (List.mem_cons_of_mem _ List.mem_cons_self)

/-- So is what prices are asked of. -/
theorem source {prices : PriceIndex} {predicate : AmountPredicate}
    (h : (Formula.price p f prices predicate).Keyed) : f.Keyed :=
  h.of_mem_children List.mem_cons_self

/-- So is what is observed. -/
theorem inner {o : Observer} {cost : ℕ} (h : (Formula.observed p f o cost).Keyed) : f.Keyed :=
  h.of_mem_children List.mem_cons_self

end Keyed

/-- A composite node costs no less than any of its parts. -/
theorem le_compositeCost {children : List Formula} {c : Formula} (hc : c ∈ children)
    (hmax : c.cost ≤ Word.max) : c.cost ≤ compositeCost children := by
  have hsum : c.cost ≤ Word.satSum (children.map cost) :=
    Word.le_satSum (List.mem_map_of_mem hc) hmax
  have hword : Word.satSum (children.map cost) ≤ Word.max := by
    rw [Word.satSum_eq_min]
    exact min_le_right ..
  exact hsum.trans (Word.le_satAdd_left _ hword)

namespace Composed

/-- A cost is a word. -/
theorem cost_le_max {f : Formula} (h : f.Composed) (hkeys : f.Keyed) : f.cost ≤ Word.max := by
  induction h with
  | empty => exact Nat.zero_le _
  | constant | cached => exact (by decide : 1 ≤ Word.max)
  | index => exact max_le (hkeys.indexed.size_le.trans (by decide)) (by decide)
  | and | or | not | price => exact Word.satAdd_le_max ..
  | observed id cost _ _ ih => exact ih hkeys.inner

/-- A node costs no less than any of its parts. -/
theorem cost_le_of_mem_children {f : Formula} (h : f.Composed) (hkeys : f.Keyed) {c : Formula}
    (hc : c ∈ f.children) : c.cost ≤ f.cost := by
  have hword (hcomposed : c.Composed) : c.cost ≤ Word.max :=
    hcomposed.cost_le_max (hkeys.of_mem_children hc)
  cases h with
  | and id _ h | or id _ h => exact le_compositeCost hc (hword (h c hc))
  | not id hf hg =>
    refine le_compositeCost hc (hword ?_)
    rcases List.mem_pair.mp hc with rfl | rfl
    · exact hf
    · exact hg
  | price id h =>
    obtain rfl := List.mem_singleton.mp hc
    exact Word.le_satAdd_left _ (hword h)
  | observed =>
    obtain rfl := List.mem_singleton.mp hc
    exact le_refl _
  | empty | constant | index | cached => exact absurd hc List.not_mem_nil

end Composed

/-- Whether a formula over keys of entities costs less than some bound. -/
structure Below (bound : ℕ) (f : Formula) : Prop where
  /-- It is over keys of entities. -/
  keyed : f.Keyed
  /-- It costs less than the bound. -/
  cost_lt : f.cost < bound

/-- So do its parts. -/
theorem Below.of_mem_children {bound : ℕ} {f : Formula} (h : f.Below bound) (hf : f.Composed)
    {c : Formula} (hc : c ∈ f.children) : c.Below bound :=
  ⟨h.keyed.of_mem_children hc, (hf.cost_le_of_mem_children h.keyed hc).trans_lt h.cost_lt⟩

end Formula

/-! ## What is too cheap -/

namespace Workspace

open Formula

variable {α β : Type} {scope : Scope} {w w' : Workspace}

/-- What follows a computation goes on from what it gives. -/
theorem bind_of_eq {x : Work α} {a : α} (h : x w = (a, w')) (k : α → Work β) :
    (x >>= k) w = k a w' := by
  show k (x w).1 (x w).2 = k a w'
  rw [h]

/-- Nothing takes the place of a formula that is too cheap. -/
theorem substitute_of_cheap {f : Formula} (h : f.cost < w.supervisor.options.minimalCost)
    (live : Work Formula) : substitute scope f live w = live w := by
  rw [substitute, bind_of_eq (consult_of_cheap h)]

/-- Over the parts that it has, a node stays what it is. -/
theorem withChildren_children (f : Formula) (w : Workspace) :
    (liftM (f.withChildren f.children) : Work Formula) w = (f, w) := by
  rw [withChildren_of_same]
  rfl

/-- Formulas that come back as they are do so together. -/
theorem analyseNodes_of_unchanged {fs : List Formula}
    (h : ∀ f ∈ fs, analyseNode scope f w = (f, w)) : analyseNodes scope fs w = (fs, w) := by
  induction fs with
  | nil => rfl
  | cons f rest ih =>
    have hrest := ih fun c hc => h c (List.mem_cons_of_mem f hc)
    rw [analyseNodes, bind_of_eq (h f List.mem_cons_self), bind_of_eq hrest]
    rfl

/-- A formula that is too cheap comes back as it is. -/
theorem analyseNode_of_cheap {f : Formula} (h : f.Composed)
    (hbelow : f.Below w.supervisor.options.minimalCost) : analyseNode scope f w = (f, w) := by
  -- The parts are no dearer, so by induction they come back as they are.
  induction h with
  | empty | constant | index | cached => rfl
  | and id hne h ih =>
    have hparts := analyseNodes_of_unchanged fun c hc =>
      ih c hc (hbelow.of_mem_children (.and id hne h) hc)
    rw [analyseNode, substitute_of_cheap hbelow.cost_lt, bind_of_eq hparts]
    exact withChildren_children _ w
  | or id hne h ih =>
    have hparts := analyseNodes_of_unchanged fun c hc =>
      ih c hc (hbelow.of_mem_children (.or id hne h) hc)
    rw [analyseNode, substitute_of_cheap hbelow.cost_lt, bind_of_eq hparts]
    exact withChildren_children _ w
  | not id hf hg ihf ihg =>
    have hsubtracted := ihf (hbelow.of_mem_children (.not id hf hg) List.mem_cons_self)
    have hsuperset := ihg (hbelow.of_mem_children (.not id hf hg)
      (List.mem_cons_of_mem _ List.mem_cons_self))
    rw [analyseNode, substitute_of_cheap hbelow.cost_lt, bind_of_eq hsubtracted,
      bind_of_eq hsuperset]
    exact withChildren_children _ w
  | price id h hprices ih =>
    have hsource := ih (hbelow.of_mem_children (.price id h hprices) List.mem_cons_self)
    rw [analyseNode, substitute_of_cheap hbelow.cost_lt, bind_of_eq hsource]
    exact withChildren_children _ w
  | observed id cost h ho ih =>
    -- An observed computation is not looked up itself.
    have hinner := ih (hbelow.of_mem_children (.observed id cost h ho) List.mem_cons_self)
    rw [analyseNode, bind_of_eq hinner]
    exact withChildren_children _ w

end Workspace

namespace Formula

/-- A cheap formula bypasses the cache. A node costs no less than any of its parts, so when a
formula costs less than what is looked up, analysing it gives it back as it is, and leaves the
workspace as it is: all that the cache follows, its counters and whether a sweep was asked for, and
the memory. -/
theorem Composed.analyse_of_cheap {f : Formula} (h : f.Composed) (hkeys : f.Keyed) :
    (∀ c ∈ f.children, c.cost ≤ f.cost) ∧
      ∀ scope (w : Workspace), f.cost < w.supervisor.options.minimalCost →
        Workspace.analyse scope f w = (f, w) := by
  refine ⟨fun c hc => h.cost_le_of_mem_children hkeys hc, fun scope w hcheap => ?_⟩
  rcases henabled : w.supervisor.isEnabled with - | -
  · exact Workspace.analyse_disabled henabled
  · have hrun : Workspace.analyse scope f w = Workspace.analyseNode scope f w := by
      rw [Workspace.analyse, Workspace.bind_of_eq (show (get : Work Workspace) w = (w, w) from rfl),
        if_pos henabled]
    rw [hrun]
    exact Workspace.analyseNode_of_cheap h ⟨hkeys, hcheap⟩

/-- Observers and results from the cache cost what they stand for, or next to nothing. -/
theorem analyse_of_cheap_cheapRemembered :
    let options : CacheOptions := { minimalCost := 100 }
    let w : Workspace := ⟨⟨options, some { options }⟩, { fresh := 5 }⟩
    cheapRemembered.Composed ∧ cheapRemembered.Keyed ∧ cheapRemembered.cost < 100 ∧
      Workspace.analyse ⟨"shop", "product"⟩ cheapRemembered w = (cheapRemembered, w) := by
  intro options w
  have hlisted : CandidateSet.OfEntities (.ofKeys [2, 3]) := .ofKeys (by decide)
  have hcached : CandidateSet.OfEntities (.ofKeys [9, 2]) := .ofKeys (by decide)
  have hcheap : cheap.Keyed :=
    .node (List.cons_ne_nil _ _) fun c hc => List.mem_singleton.mp hc ▸ .constant _ hlisted
  have hkeys : cheapRemembered.Keyed := by
    refine .node (List.cons_ne_nil _ _) fun c hc => ?_
    obtain rfl := List.mem_singleton.mp hc
    refine .node (List.cons_ne_nil _ _) fun c hc => ?_
    rcases List.mem_pair.mp hc with rfl | rfl
    · exact hcheap
    · exact .cached _ hcached
  have hcost : cheapRemembered.cost < 100 := by
    have hlisted : (CandidateSet.ofKeys [2, 3]).size ≤ 2 := CandidateSet.size_ofKeys_le [2, 3]
    have hcached : (CandidateSet.ofKeys [9, 2]).size ≤ 2 := CandidateSet.size_ofKeys_le [9, 2]
    have hparts : cheapRemembered.cost = Word.satAdd
        (Word.satSum [Word.satAdd 1 (Word.satMul (CandidateSet.ofKeys [2, 3]).size 12), 1])
        (Word.satMul (Word.satSum [(CandidateSet.ofKeys [2, 3]).size,
          (CandidateSet.ofKeys [9, 2]).size]) 4) := rfl
    rw [hparts]
    simp only [Word.satSum_eq_min, Word.satAdd, Word.satMul, List.sum_cons, List.sum_nil]
    omega
  exact ⟨composed_cheapRemembered, hkeys, hcost,
    (composed_cheapRemembered.analyse_of_cheap hkeys).2 _ w hcost⟩

end Formula

end EntityQuery
