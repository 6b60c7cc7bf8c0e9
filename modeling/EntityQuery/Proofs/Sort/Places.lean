import EntityQuery.Proofs.Sort.FullOrder
import Mathlib.Order.Bounds.Basic

/-!
# Places are least positions

A comparator keeps three tables: references by entity, positions by referenced entity, and places by
entity. All are read by bisection, and this module says what is read. In a table that is sorted by
key and has each key once, what is found beside a key is what stands there
(`Placement.find_eq_some_iff`); so the best position of an entity is the least position of what it
references (`Placement.bestOf_eq_some_iff`), and it is the place of the entity where the entity was
to be placed (`Placement.positionOf_ofOrder`).

Entities are compared by place, and by key where places do not tell. `Placement.compare` is a linear
order whatever the places are, so there is one way to sort by it (`Placement.mergeSort_eq`). The
placed entities of a set come in this order (`Placement.resolve_sorted`), and so do the placed
entities of the input with the others behind them (`Placement.resolve_append_sorted`).
-/

namespace EntityQuery

namespace Placement

/-! ## Tables -/

/-- What is found beside a key is what stands there, in a table that is sorted by key and has
nothing else beside the key. -/
theorem find_eq_some_iff {table : List (ℕ × ℕ)} (hsorted : table.Pairwise fun a b => a.1 ≤ b.1)
    {key : ℕ} (hunique : ∀ v w, (key, v) ∈ table → (key, w) ∈ table → v = w) {value : ℕ} :
    find table.toArray key = some value ↔ (key, value) ∈ table := by
  have hmem (r : ℕ × ℕ) : r ∈ table.filter (fun x => x.1 == key) ↔ r ∈ table ∧ r.1 = key := by
    rw [List.mem_filter, beq_iff_eq]
  rw [find, lastWithKey_eq_getLast? hsorted, Option.map_eq_some_iff]
  constructor
  · rintro ⟨⟨k, v⟩, hlast, rfl⟩
    obtain ⟨htable, rfl⟩ := (hmem _).mp (List.mem_of_getLast? hlast)
    exact htable
  · intro htable
    have hne : table.filter (fun x => x.1 == key) ≠ [] :=
      List.ne_nil_of_mem ((hmem _).mpr ⟨htable, rfl⟩)
    obtain ⟨last, hlast⟩ := Option.isSome_iff_exists.mp (List.getLast?_isSome.mpr hne)
    obtain ⟨htable', hkey⟩ := (hmem last).mp (List.mem_of_getLast? hlast)
    obtain ⟨k, v⟩ := last
    obtain rfl : k = key := hkey
    exact ⟨(k, v), hlast, hunique v value htable' htable⟩

/-- The position that is found for a member of an order is where it stands, when the order lists
nothing twice. -/
theorem find_places {order : List ℕ} (h : order.Nodup) {r i : ℕ} :
    find (places order).toArray r = some i ↔ order[i]? = some r := by
  have hmem (j : ℕ) : (r, j) ∈ places order ↔ order[j]? = some r := by
    rw [places, List.mem_mergeSort, List.mem_zipIdx_iff_getElem?]
  have hsorted : (places order).Pairwise fun a b => a.1 ≤ b.1 := mergeSort_pairs_sorted _
  rw [find_eq_some_iff hsorted, hmem]
  intro j k hj hk
  rw [hmem] at hj hk
  have hlt : j < order.length := (List.getElem?_eq_some_iff.mp hj).1
  exact (List.getElem?_inj hlt h).mp (hj.trans hk.symm)

/-- The positions, in an order, of what an entity references. -/
def referencedPositions (references : References) (order : List ℕ) (entity : ℕ) : Set ℕ :=
  {i | ∃ r, (entity, r) ∈ references ∧ order[i]? = some r}

/-- The positions among which the best one is chosen. -/
theorem mem_found {references : References} {order : List ℕ} (h : order.Nodup) {entity i : ℕ} :
    i ∈ (equalRange (·.1) references.table.toArray entity).filterMap
        (fun r => find (places order).toArray r.2)
      ↔ i ∈ referencedPositions references order entity := by
  rw [equalRange_eq_filter references.table_sorted, List.mem_filterMap]
  constructor
  · rintro ⟨⟨e, r⟩, hr, hfind⟩
    rw [List.mem_filter, beq_iff_eq, References.mem_table] at hr
    obtain ⟨href, rfl⟩ := hr
    exact ⟨r, href, (find_places h).mp hfind⟩
  · rintro ⟨r, href, hi⟩
    refine ⟨(entity, r), ?_, (find_places h).mpr hi⟩
    rw [List.mem_filter, beq_iff_eq, References.mem_table]
    exact ⟨href, rfl⟩

/-- The best position of an entity is the least one of what it references. -/
theorem bestOf_eq_some_iff {references : References} {order : List ℕ} (h : order.Nodup)
    {entity i : ℕ} :
    bestOf references order entity = some i
      ↔ IsLeast (referencedPositions references order entity) i := by
  rw [bestOf, bestPosition, List.min?_eq_some_iff, mem_found h]
  refine and_congr_right fun _ => forall_congr' fun j => ?_
  rw [mem_found h]

/-- There is no best position exactly when nothing is referenced that the order lists. -/
theorem bestOf_eq_none_iff {references : References} {order : List ℕ} (h : order.Nodup)
    {entity : ℕ} :
    bestOf references order entity = none
      ↔ ∀ r, (entity, r) ∈ references → r ∉ order := by
  rw [bestOf, bestPosition, List.min?_eq_none_iff, List.eq_nil_iff_forall_not_mem]
  constructor
  · intro hnone r href hr
    obtain ⟨i, hi⟩ := List.getElem?_of_mem hr
    exact hnone i ((mem_found h).mpr ⟨r, href, hi⟩)
  · intro hnone i hi
    obtain ⟨r, href, hi⟩ := (mem_found h).mp hi
    exact hnone r href (List.mem_of_getElem? hi)

/-! ## Places -/

/-- The place of an entity is its best position, if it was to be placed. -/
theorem positionOf_ofOrder (references : References) (order : List ℕ) (input : CandidateSet)
    (e : ℕ) : (ofOrder references order input).positionOf e
      = if e ∈ input then bestOf references order e else none := by
  let table := input.keys.filterMap fun k => (bestOf references order k).map (k, ·)
  have hmem (k i : ℕ) : (k, i) ∈ table ↔ k ∈ input ∧ bestOf references order k = some i := by
    simp [table, CandidateSet.mem_iff]
  have hsorted : table.Pairwise fun a b => a.1 ≤ b.1 := by
    refine input.ascending.filterMap _ fun a b hab x hx y hy => ?_
    obtain ⟨-, -, rfl⟩ := Option.map_eq_some_iff.mp hx
    obtain ⟨-, -, rfl⟩ := Option.map_eq_some_iff.mp hy
    exact hab.le
  have hunique (i j : ℕ) (hi : (e, i) ∈ table) (hj : (e, j) ∈ table) : i = j := by
    have hsame := ((hmem e i).mp hi).2.symm.trans ((hmem e j).mp hj).2
    exact Option.some.inj hsame
  have hfind (i : ℕ) : (ofOrder references order input).positionOf e = some i
      ↔ e ∈ input ∧ bestOf references order e = some i :=
    (find_eq_some_iff hsorted hunique).trans (hmem e i)
  refine Option.ext fun i => ?_
  rw [hfind, Option.ite_none_right_eq_some]

/-- The placed entities of a set are those that have a place, by place and then by key. -/
theorem resolve_ofOrder (references : References) (order : List ℕ) (input keys : CandidateSet) :
    (ofOrder references order input).resolve keys
      = byRank (keys.keys.filterMap fun k =>
          ((ofOrder references order input).positionOf k).map (k, ·)) := by
  -- Places are taken among the input and then restricted to the keys; the other way round, the same
  -- entities are left, in the same order.
  have hboth : input.filter (fun e => decide (e ∈ keys))
      = keys.filter fun k => decide (k ∈ input) := by
    rw [CandidateSet.ext_iff_mem]
    intro k
    rw [CandidateSet.mem_filter, CandidateSet.mem_filter, decide_eq_true_iff, decide_eq_true_iff,
      and_comm]
  have hlists : (input.keys.filter fun e => decide (e ∈ keys))
      = keys.keys.filter fun k => decide (k ∈ input) := congrArg CandidateSet.keys hboth
  let value := bestOf references order
  have hplaced : (input.keys.filterMap fun e => (value e).map (e, ·)).filter
      (fun p => keys.table.contains p.1)
        = (input.keys.filter fun e => decide (e ∈ keys)).filterMap
          fun e => (value e).map (e, ·) := by
    rw [List.filter_filterMap, List.filterMap_filter]
    refine List.filterMap_congr fun e _ => ?_
    have htable : keys.table.contains e = decide (e ∈ keys) := by
      rw [Bool.eq_iff_iff, CandidateSet.contains_table, decide_eq_true_iff]
    rcases value e with - | v
    · simp
    · simp [Option.filter, htable]
  have hranked : (keys.keys.filterMap fun k =>
      ((ofOrder references order input).positionOf k).map (k, ·))
        = (keys.keys.filter fun k => decide (k ∈ input)).filterMap
          fun k => (value k).map (k, ·) := by
    rw [List.filterMap_filter]
    refine List.filterMap_congr fun k _ => ?_
    rw [positionOf_ofOrder]
    by_cases hk : k ∈ input
    · simp [hk, value]
    · simp [hk]
  rw [hranked, ← hlists]
  exact congrArg byRank hplaced

/-! ## The comparison -/

section Compare

variable (p : Placement)

/-- Turning a comparison around swaps its outcome. -/
instance : Std.OrientedCmp p.compare where
  eq_swap {a b} := by
    cases ha : p.positionOf a with
    | none =>
      cases hb : p.positionOf b with
      | none =>
        simp only [compare, ha, hb]
        exact Std.OrientedOrd.eq_swap
      | some y =>
        simp only [compare, ha, hb]
        rfl
    | some x =>
      cases hb : p.positionOf b with
      | none =>
        simp only [compare, ha, hb]
        rfl
      | some y =>
        simp only [compare, ha, hb, Ordering.swap_then]
        rw [← Std.OrientedOrd.eq_swap, ← Std.OrientedOrd.eq_swap]

/-- An entity comes no later than another one when it has the better place, or the smaller key where
places do not tell. -/
theorem compare_isLE_iff (a b : ℕ) :
    (p.compare a b).isLE ↔
      match p.positionOf a, p.positionOf b with
      | some x, some y => x < y ∨ x = y ∧ a ≤ b
      | some _, none => True
      | none, some _ => False
      | none, none => a ≤ b := by
  cases ha : p.positionOf a with
  | none =>
    cases hb : p.positionOf b with
    | none => simp only [compare, ha, hb, Nat.isLE_compare]
    | some y => simp [compare, ha, hb]
  | some x =>
    cases hb : p.positionOf b with
    | none => simp [compare, ha, hb]
    | some y =>
      simp only [compare, ha, hb, Ordering.isLE_then_iff_or, Nat.compare_eq_lt, Nat.compare_eq_eq,
        Nat.isLE_compare]

/-- Of three entities that come no later than the next one, the first comes no later than the
last. -/
instance : Std.TransCmp p.compare where
  isLE_trans {a b c} hab hbc := by
    rw [compare_isLE_iff] at hab hbc ⊢
    cases ha : p.positionOf a <;> cases hb : p.positionOf b <;> cases hc : p.positionOf c <;>
      simp only [ha, hb, hc] at hab hbc ⊢ <;> omega

/-- Only an entity itself is as good as it. -/
instance : Std.LawfulEqCmp p.compare where
  compare_self {a} := by
    cases ha : p.positionOf a <;> simp [compare, ha]
  eq_of_compare {a b} h := by
    cases ha : p.positionOf a <;> cases hb : p.positionOf b <;>
      simp_all [compare, Ordering.then_eq_eq]

/-- What comes before what is a strict total order. -/
theorem isStrictTotalOrder_compare : IsStrictTotalOrder ℕ fun a b => p.compare a b = .lt where
  trichotomous a b hab hba := by
    have hswap : p.compare b a = (p.compare a b).swap := Std.OrientedCmp.eq_swap
    rw [hswap, Ordering.swap_eq_lt] at hba
    have heq : p.compare a b = .eq := by
      cases hcmp : p.compare a b with
      | lt => exact absurd hcmp hab
      | eq => rfl
      | gt => exact absurd hcmp hba
    exact Std.LawfulEqCmp.eq_of_compare heq
  irrefl a ha := by
    have hself : p.compare a a = .eq := Std.ReflCmp.compare_self
    rw [hself] at ha
    exact absurd ha (by decide)
  trans _ _ _ hab hbc := Std.TransCmp.lt_trans hab hbc

/-- There is one way to sort by the comparison. -/
theorem mergeSort_eq {keys sorted : List ℕ}
    (hsorted : sorted.Pairwise fun a b => (p.compare a b).isLE) (hperm : sorted.Perm keys) :
    keys.mergeSort (fun a b => (p.compare a b).isLE) = sorted := by
  have htotal (a b : ℕ) : ((p.compare a b).isLE || (p.compare b a).isLE) = true := by
    have hswap : p.compare b a = (p.compare a b).swap := Std.OrientedCmp.eq_swap
    rw [hswap]
    cases p.compare a b <;> rfl
  have hmerge : (keys.mergeSort fun a b => (p.compare a b).isLE).Pairwise
      fun a b => (p.compare a b).isLE :=
    List.pairwise_mergeSort (fun _ _ _ => Std.TransCmp.isLE_trans) htotal keys
  refine List.Perm.eq_of_pairwise (fun a b _ _ hab hba => ?_) hmerge hsorted
    ((List.mergeSort_perm _ _).trans hperm.symm)
  exact Std.LawfulEqCmp.eq_of_compare (Std.OrientedCmp.isLE_antisymm hab hba)

end Compare

/-! ## Sorting -/

variable (references : References) (order : List ℕ) (input keys : CandidateSet)

/-- The placed entities of a set come in the order of the comparison. -/
theorem resolve_sorted : ((ofOrder references order input).resolve keys).Pairwise
    fun a b => ((ofOrder references order input).compare a b).isLE := by
  rw [resolve_ofOrder]
  generalize ofOrder references order input = p
  have hplace : ∀ r ∈ (keys.keys.filterMap fun k => (p.positionOf k).map (k, ·)).mergeSort
      rankNoLater, p.positionOf r.1 = some r.2 := by
    intro r hr
    obtain ⟨k, -, hk⟩ := List.mem_filterMap.mp (List.mem_mergeSort.mp hr)
    obtain ⟨i, hi, rfl⟩ := Option.map_eq_some_iff.mp hk
    exact hi
  have hsorted := mergeSort_rankNoLater_sorted
    (keys.keys.filterMap fun k => (p.positionOf k).map (k, ·))
  refine List.pairwise_map.mpr (hsorted.imp_of_mem fun {a b} ha hb hab => ?_)
  rw [compare_isLE_iff, hplace a ha, hplace b hb]
  exact of_decide_eq_true hab

/-- What is resolved of a set is what has a place. -/
theorem resolve_perm : ((ofOrder references order input).resolve keys).Perm
    (keys.keys.filter fun k => ((ofOrder references order input).positionOf k).isSome) := by
  rw [resolve_ofOrder]
  refine (byRank_perm _).trans (List.Perm.of_eq ?_)
  rw [List.map_filterMap, ← List.filterMap_eq_filter]
  refine List.filterMap_congr fun k _ => ?_
  cases hk : (ofOrder references order input).positionOf k <;> simp [Option.guard, hk]

/-- The entities that are left over are those of the input that have no place. -/
theorem unplaced_ofOrder : (ofOrder references order input).unplaced
    = input.keys.filter fun e => !((ofOrder references order input).positionOf e).isSome := by
  refine List.filter_congr fun e he => ?_
  have hmem : e ∈ input := he
  rw [positionOf_ofOrder, if_pos hmem, Option.not_isSome]
  rfl

/-- The placed entities of the input come before the others, and all are in the order of the
comparison. -/
theorem resolve_append_sorted :
    ((ofOrder references order input).resolve input
        ++ (ofOrder references order input).unplaced).Pairwise
      fun a b => ((ofOrder references order input).compare a b).isLE := by
  have hplaced (a : ℕ) (ha : a ∈ (ofOrder references order input).resolve input) :
      ∃ i, (ofOrder references order input).positionOf a = some i := by
    have hsome := (List.mem_filter.mp ((resolve_perm references order input input).subset ha)).2
    exact Option.isSome_iff_exists.mp hsome
  have hother (b : ℕ) (hb : b ∈ (ofOrder references order input).unplaced) :
      (ofOrder references order input).positionOf b = none := by
    rw [unplaced_ofOrder, List.mem_filter] at hb
    simpa using hb.2
  refine List.pairwise_append.mpr ⟨resolve_sorted _ _ _ _, ?_, fun a ha b hb => ?_⟩
  · have hascending : (ofOrder references order input).unplaced.Pairwise (· < ·) :=
      input.ascending.sublist List.filter_sublist
    refine hascending.imp_of_mem fun {a b} ha hb hab => ?_
    rw [compare_isLE_iff, hother a ha, hother b hb]
    exact hab.le
  · obtain ⟨i, hi⟩ := hplaced a ha
    rw [compare_isLE_iff, hi, hother b hb]
    trivial

/-- The placed entities of the input and the others are the input. -/
theorem resolve_append_perm :
    ((ofOrder references order input).resolve input
        ++ (ofOrder references order input).unplaced).Perm input.keys := by
  rw [unplaced_ofOrder]
  exact ((resolve_perm references order input input).append_right _).trans
    (List.filter_append_perm _ _)

end Placement

/-! ## Initialized comparators -/

/-- What places are to be for some references, an order of what is referenced, and the entities
that were to be placed. -/
structure Placement.Ranks (p : Placement) (references : References) (order : List ℕ)
    (input : CandidateSet) : Prop where
  /-- An entity of the input stands at the least position of what it references. -/
  place : ∀ e ∈ input, ∀ i, p.positionOf e = some i
    ↔ IsLeast {i | ∃ r, (e, r) ∈ references ∧ order[i]? = some r} i
  /-- It has no place exactly when it references nothing that the order lists. -/
  no_place : ∀ e ∈ input, p.positionOf e = none ↔ ∀ r, (e, r) ∈ references → r ∉ order
  /-- Other entities have no place. -/
  no_place_outside : ∀ e, e ∉ input → p.positionOf e = none
  /-- The comparison is a strict total order on all keys. -/
  strict : IsStrictTotalOrder ℕ fun a b => p.compare a b = .lt
  /-- Turning it around swaps its outcome. -/
  swap : ∀ a b, p.compare a b = (p.compare b a).swap
  /-- Sorting the input gives the placed entities and then the others. -/
  sorted : input.keys.mergeSort (fun a b => (p.compare a b).isLE) = p.resolve input ++ p.unplaced
  /-- The placed entities and the others are the input, each entity once. -/
  partition : (p.resolve input ++ p.unplaced).Perm input.keys ∧ input.keys.Nodup
  /-- Of a part of the input, the entities that have a place are resolved, in the order of the
  comparison. -/
  part : ∀ keys : CandidateSet, (∀ k ∈ keys, k ∈ input) →
    p.resolve keys = (keys.keys.filter fun k => (p.positionOf k).isSome).mergeSort
      fun a b => (p.compare a b).isLE

/-- Places by an order that lists nothing twice are what they are to be. -/
theorem Placement.ranks_ofOrder (references : References) {order : List ℕ} (h : order.Nodup)
    (input : CandidateSet) : (ofOrder references order input).Ranks references order input where
  place e he i := by
    rw [positionOf_ofOrder, if_pos he]
    exact bestOf_eq_some_iff h
  no_place e he := by
    rw [positionOf_ofOrder, if_pos he]
    exact bestOf_eq_none_iff h
  no_place_outside e he := by rw [positionOf_ofOrder, if_neg he]
  strict := isStrictTotalOrder_compare _
  swap a b := Std.OrientedCmp.eq_swap
  sorted := mergeSort_eq _ (resolve_append_sorted references order input)
    (resolve_append_perm references order input)
  partition := ⟨resolve_append_perm references order input, input.nodup_keys⟩
  part keys _ := (mergeSort_eq _ (resolve_sorted references order input keys)
    (resolve_perm references order input keys)).symm

namespace Comparator

/-- Initializing a fresh comparator places the entities. -/
theorem initializeWith_run {c : Comparator} {m : Memory} (hfresh : c.isInitialized m = false)
    (order : List ℕ) (input : CandidateSet) :
    (c.initializeWith order input).run m = (.ok (), c.place order input m) := by
  have hnone : m.placements[c.id]? = none := by
    rw [isInitialized, ← Std.HashMap.isSome_getElem?_eq_contains] at hfresh
    simpa using hfresh
  have hready : c.isReadyFor m input = .ok false := by rw [isReadyFor, hnone]
  have hrun : (c.initializeWith order input).run m
      = (ExceptT.bindCont (fun ready => if ready then pure () else modify (c.place order input))
          (c.isReadyFor m input) : Run (Except Error Unit)) m := rfl
  rw [hrun, hready]
  rfl

/-- The places that a comparator was initialized with are read back. -/
theorem placement_place (c : Comparator) (order : List ℕ) (input : CandidateSet) (m : Memory) :
    c.placement (c.place order input m) = .ok (.ofOrder c.references order input) := by
  rw [placement, place, Std.HashMap.getElem?_insert_self]

/-- A comparator that is initialized by an order of what is referenced ranks the entities by that
order, whatever the references are. -/
theorem initializeWith_ranks (c : Comparator) {order : List ℕ} (horder : order.Nodup)
    (input : CandidateSet) {m : Memory} (hfresh : c.isInitialized m = false) :
    ∃ m' p, (c.initializeWith order input).run m = (.ok (), m') ∧ c.placement m' = .ok p
      ∧ p.Ranks c.references order input :=
  ⟨_, _, initializeWith_run hfresh order input, c.placement_place order input m,
    Placement.ranks_ofOrder c.references horder input⟩

/-- Products by brand: one references two brands, of which the better one counts, one references a
brand that is not ordered, and one references none. -/
theorem initializeWith_ranks_brands :
    let c : Comparator :=
      ⟨0, "brand", .constant (Formula.constantProfile 0 (.ofKeys [100, 200, 300]))
        (.ofKeys [100, 200, 300]), [], [(3, 300), (1, 300), (2, 100), (3, 200), (4, 999)]⟩
    let products : CandidateSet := ⟨[1, 2, 3, 4, 5], by decide⟩
    [300, 100, 200].Nodup ∧ c.isInitialized {} = false ∧
      ∃ m' p, (c.initializeWith [300, 100, 200] products).run {} = (.ok (), m')
        ∧ c.placement m' = .ok p ∧ p.Ranks c.references [300, 100, 200] products
        ∧ p.positionOf 3 = some 0 ∧ p.positionOf 4 = none ∧ p.compare 1 3 = .lt := by
  intro c products
  have hfresh : c.isInitialized {} = false := Std.HashMap.contains_empty
  obtain ⟨m', p, hrun, hplacement, hranks⟩ :=
    initializeWith_ranks c (show [300, 100, 200].Nodup by decide) products hfresh
  have hleast (e : ℕ) (he : e ∈ products) (hbrand : (e, 300) ∈ c.references) :
      p.positionOf e = some 0 :=
    (hranks.place e he 0).mpr ⟨⟨300, hbrand, rfl⟩, fun _ _ => Nat.zero_le _⟩
  have hfirst := hleast 1 (by decide) (by simp [c])
  have hthird := hleast 3 (by decide) (by simp [c])
  refine ⟨by decide, hfresh, m', p, hrun, hplacement, hranks, hthird, ?_, ?_⟩
  · refine (hranks.no_place 4 (by decide)).mpr fun r hr => ?_
    obtain rfl : r = 999 := by simpa [c] using hr
    decide
  · rw [Placement.compare, hfirst, hthird]
    decide

end Comparator

end EntityQuery
