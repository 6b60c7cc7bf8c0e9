import EntityQuery.Proofs.Formula.Built
import Mathlib

/-!
# What formulas denote

A formula denotes a set of keys: listed keys and the keys of a snapshot themselves, the keys that
all parts or some part denote, those that one part denotes and the other does not, and those with a
price that a predicate accepts (`Formula.meaning`). Nothing of how it is computed enters: no order
of the parts, no look-up of prices, and nothing that was computed before.

`Formula.Composed` says which formulas there are. They are built node by node, so that every node
carries the profile of its kind. A cached node stands for a composed formula, and may hold any
keys. Such a formula computes what it denotes (`Formula.Composed.compute_eq_meaning`), because
each kind of node computes what it denotes from what its parts do.
-/

namespace EntityQuery

/-- Whether a price is accepted: any price, or one that has an amount of the mode which is between
the bounds that there are. -/
def AmountPredicate.Accepts : AmountPredicate → PriceRecord → Prop
  | all, _ => True
  | range mode lower upper _, price => ∃ amount, mode.amount price = some amount
    ∧ (∀ l, lower = some l → l ≤ amount) ∧ ∀ u, upper = some u → amount ≤ u

/-- The test of a price decides whether it is accepted. -/
theorem AmountPredicate.testPrice_iff (predicate : AmountPredicate) (price : PriceRecord) :
    predicate.testPrice price = true ↔ predicate.Accepts price := by
  cases predicate with
  | all => exact iff_of_true rfl trivial
  | range mode lower upper places =>
    simp only [testPrice, Option.any_eq_true, test_range, Accepts]

/-- The keys of a source that are selected are those with a price that is accepted. -/
theorem PriceIndex.WellFormed.mem_select {prices : PriceIndex} (h : prices.WellFormed)
    {predicate : AmountPredicate} {source : CandidateSet} {k : ℕ} :
    k ∈ prices.select predicate source
      ↔ k ∈ source ∧ ∃ r ∈ prices.records, r.entity = k ∧ predicate.Accepts r := by
  have hpriced : k ∈ source.inter prices.entities
      ↔ k ∈ source ∧ ∃ r ∈ prices.records, r.entity = k := by
    rw [CandidateSet.mem_inter, h.mem_entities]
  rw [select]
  cases predicate with
  | all => simpa [AmountPredicate.isAll, AmountPredicate.Accepts] using hpriced
  | range mode lower upper places =>
    -- The prices of a key are looked up in the ordered records.
    have htest : (equalRange PriceRecord.entity prices.records.toArray k).any
          (AmountPredicate.range mode lower upper places).testPrice = true
        ↔ ∃ r ∈ prices.records, r.entity = k
          ∧ (AmountPredicate.range mode lower upper places).Accepts r := by
      rw [List.any_eq_true]
      refine exists_congr fun r => ?_
      rw [AmountPredicate.testPrice_iff, ← and_assoc]
      exact and_congr_left' h.mem_pricesOf
    simp only [AmountPredicate.isAll, Bool.false_eq_true, if_false, CandidateSet.mem_filter, htest,
      hpriced]
    constructor
    · rintro ⟨⟨hsource, -⟩, haccepted⟩
      exact ⟨hsource, haccepted⟩
    · rintro ⟨hsource, r, hr, hentity, haccepts⟩
      exact ⟨⟨hsource, r, hr, hentity⟩, r, hr, hentity, haccepts⟩

/-- Conjunctions and disjunctions have parts, and price indexes are well formed. Of cached keys
nothing is asked. -/
def Provenance.composed : Provenance where
  snapshot _ := True
  prices prices _ := prices.WellFormed
  partless := False
  cached _ _ := True
  observer _ _ := True

namespace Formula

/-- The keys that a formula denotes. -/
def meaning : Formula → Set ℕ
  | empty _ => ∅
  | constant _ keys | cached _ keys => {k | k ∈ keys}
  | index _ snapshot => {k | k ∈ snapshot.keys}
  | and _ children => ⋂ c ∈ children, c.meaning
  | or _ children => ⋃ c ∈ children, c.meaning
  | not _ subtracted superset => superset.meaning \ subtracted.meaning
  | price _ source prices predicate =>
    source.meaning ∩ {k | ∃ r ∈ prices.records, r.entity = k ∧ predicate.Accepts r}
  | observed _ inner _ _ => inner.meaning

/-- A formula that was put together node by node, whatever keys its cached nodes hold. -/
def Composed (f : Formula) : Prop := f.Built .composed

namespace Composed

/-- A composed filter computes what it denotes. -/
theorem mem_result_iff {f : Formula} (h : f.Composed) (k : ℕ) :
    k ∈ f.result ↔ k ∈ f.meaning := by
  induction h with
  | empty id =>
    rw [meaning]
    exact iff_of_false (CandidateSet.not_mem_empty k) (Set.notMem_empty k)
  | constant | cached =>
    rw [meaning]
    exact Iff.rfl
  | index =>
    rw [meaning]
    exact Iff.rfl
  | and id hne _ ih =>
    rw [mem_result_and hne, meaning, Set.mem_iInter₂]
    exact forall₂_congr ih
  | or id hne _ ih =>
    rw [mem_result_or, meaning, Set.mem_iUnion₂]
    simp only [exists_prop]
    exact exists_congr fun c => and_congr_right (ih c)
  | not id _ _ ihf ihg =>
    rw [mem_result_not, meaning, Set.mem_sdiff, ihf, ihg]
  | price id _ hprices ih =>
    rw [result_price, PriceIndex.WellFormed.mem_select hprices, meaning, ih]
    exact Iff.rfl
  | observed id cost _ _ ih =>
    rw [meaning]
    exact ih

/-- A formula computes what it denotes, whatever has been computed before. -/
theorem compute_eq_meaning {f : Formula} (h : f.Composed) (m : Memory) :
    {k | k ∈ (f.compute m).1} = f.meaning := by
  ext k
  rw [Set.mem_ofPred_eq, compute_fst]
  exact h.mem_result_iff k

end Composed

/-- The prices of two entities. -/
def twoPrices : PriceIndex := .ofRecords 5 2 [⟨3, 0, 40, 50⟩, ⟨2, 0, 10, 20⟩]

/-- The entities with a price of at most thirty, out of two that are listed. -/
def cheap : Formula :=
  let predicate := .range .withTax none (some 30) 2
  let source := constant (constantProfile 0 (.ofKeys [2, 3])) (.ofKeys [2, 3])
  price (priceProfile 1 source twoPrices predicate) source twoPrices predicate

/-- Some keys that were cached for these entities. -/
def remembered : Formula := cached (cachedProfile 2 cheap (.ofKeys [9, 2])) (.ofKeys [9, 2])

/-- The cheap entities among those that were cached, as an observed conjunction. -/
def cheapRemembered : Formula :=
  let inner := and (andProfile 3 [cheap, remembered]) [cheap, remembered]
  observed (observedProfile 4 inner) inner (.adept 0) 100

/-- That conjunction is composed as filters are. -/
theorem composed_cheapRemembered : cheapRemembered.Composed := by
  have hcheap : cheap.Composed :=
    .price 1 (.constant 0 _) (PriceIndex.wellFormed_ofRecords 5 2 _)
  refine .observed 4 _ (.and 3 (List.cons_ne_nil _ _) fun c hc => ?_) trivial
  rcases List.mem_pair.1 hc with rfl | rfl
  · exact hcheap
  · exact .cached 2 hcheap trivial

/-- It computes the one key that is cheap and was cached. -/
theorem compute_eq_meaning_cheapRemembered :
    {k | k ∈ (cheapRemembered.compute {}).1} = {2} := by
  have hkeys : cheap.meaning = {2} := by
    ext k
    simp [cheap, meaning, twoPrices, PriceIndex.ofRecords, AmountPredicate.Accepts,
      ValueMode.amount]
  have hcached : remembered.meaning = {9, 2} := by
    ext k
    simp [remembered, meaning]
  rw [composed_cheapRemembered.compute_eq_meaning, cheapRemembered, meaning, meaning]
  ext k
  simp [hkeys, hcached]

end Formula

end EntityQuery
