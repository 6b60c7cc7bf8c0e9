import EntityQuery.Formula.Basic

/-!
# Building formulas

How the nodes of a formula are put together, and what each kind of node carries. Composite nodes
derive everything from what their parts carry, so a part may be exchanged for one that carries the
same and the whole is identified as before.
-/

namespace EntityQuery

/-- Whether a predicate can be used on a price index: it has to read a value that prices have, at
the precision of the index. -/
def PriceIndex.check (prices : PriceIndex) : AmountPredicate → Except Error Unit
  | .all => .ok ()
  | .range mode _ _ places =>
    if mode = .raw then .error (.priceMode mode)
    else if places ≠ prices.places then .error (.pricePlaces places prices.places)
    else .ok ()

/-- The keys of a source that have an accepted price. -/
def PriceIndex.select (prices : PriceIndex) (predicate : AmountPredicate) (source : CandidateSet) :
    CandidateSet :=
  let priced := source.inter prices.entities
  if predicate.isAll then priced
  else
    let records := prices.records.toArray
    priced.filter fun k => (equalRange PriceRecord.entity records k).any predicate.testPrice

namespace Formula

/-- The cost of one key that a composite node touches. -/
def costPerKey : Nat := 4

/-- The cost of one key whose prices are tested. -/
def costPerPrice : Nat := 12

/-- The cost of a composite node: that of its parts and of touching their keys. -/
def compositeCost (children : List Formula) : Nat :=
  Word.satAdd (Word.satSum (children.map cost))
    (Word.satMul (Word.satSum (children.map cardinality)) costPerKey)

/-- The snapshots that some part reads. -/
def compositeSnapshots (children : List Formula) : List Digest :=
  Digest.sortDistinct (children.flatMap snapshots)

/-- What a node without keys carries. -/
def emptyProfile (id : NodeId) : Profile where
  id
  digest := .tagged 0x01 []
  snapshots := []
  cost := 0
  cardinality := 0
  result := Thunk.pure ∅

/-- What listed keys carry. -/
def constantProfile (id : NodeId) (keys : CandidateSet) : Profile where
  id
  digest := .tagged 0x02 (Digest.orderedPart (keys.keys.map .word))
  snapshots := []
  cost := 1
  cardinality := keys.size
  result := Thunk.pure keys

/-- What an index snapshot carries. -/
def indexProfile (id : NodeId) (snapshot : IndexSnapshot) : Profile where
  id
  digest := .tagged 0x03 [.word snapshot.id]
  snapshots := [snapshot.digest]
  cost := max snapshot.keys.size 1
  cardinality := snapshot.keys.size
  result := Thunk.pure snapshot.keys

/-- What a conjunction carries. -/
def andProfile (id : NodeId) (children : List Formula) : Profile where
  id
  digest := .tagged 0x04 (Digest.unorderedPart (children.map digest))
  snapshots := compositeSnapshots children
  cost := compositeCost children
  cardinality := (children.map cardinality).min?.getD 0
  result := Thunk.mk fun _ => .interAll (children.map result)

/-- What a disjunction carries. -/
def orProfile (id : NodeId) (children : List Formula) : Profile where
  id
  digest := .tagged 0x05 (Digest.unorderedPart (children.map digest))
  snapshots := compositeSnapshots children
  cost := compositeCost children
  cardinality := Word.satSum (children.map cardinality)
  result := Thunk.mk fun _ => .unionAll (children.map result)

/-- What a difference carries. -/
def notProfile (id : NodeId) (subtracted superset : Formula) : Profile where
  id
  digest := .tagged 0x06 (Digest.orderedPart [subtracted.digest, superset.digest])
  snapshots := compositeSnapshots [subtracted, superset]
  cost := compositeCost [subtracted, superset]
  cardinality := superset.cardinality
  result := Thunk.mk fun _ => superset.result.diff subtracted.result

/-- What a price filter carries. -/
def priceProfile (id : NodeId) (source : Formula) (prices : PriceIndex)
    (predicate : AmountPredicate) : Profile where
  id
  digest := .tagged 0x07 [source.digest, .word prices.id, predicate.digest]
  snapshots := Digest.sortDistinct (source.snapshots ++ [prices.digest])
  cost := Word.satAdd source.cost (Word.satMul source.cardinality costPerPrice)
  cardinality := source.cardinality
  result := Thunk.mk fun _ => prices.select predicate source.result

/-- What a cached result carries: the identity of the computation that it stands for. -/
def cachedProfile (id : NodeId) (f : Formula) (keys : CandidateSet) : Profile where
  id
  digest := f.digest
  snapshots := f.snapshots
  cost := 1
  cardinality := keys.size
  result := Thunk.pure keys

/-- What an observed computation carries: all that the computation itself does. -/
def observedProfile (id : NodeId) (inner : Formula) : Profile := { inner.profile with id }

/-- The filter that no key passes. -/
def nothing : Run Formula := do return empty (emptyProfile (← Memory.newId))

/-- The filter that listed keys pass. -/
def ofKeys (keys : CandidateSet) : Run Formula := do
  return constant (constantProfile (← Memory.newId) keys) keys

/-- The filter that the keys of an index pass. -/
def ofIndex (snapshot : IndexSnapshot) : Run Formula := do
  return index (indexProfile (← Memory.newId) snapshot) snapshot

/-- The filter of the keys that pass all parts. Without parts no key passes. -/
def allOf (children : List Formula) : Run Formula := do
  if children.isEmpty then nothing
  else return and (andProfile (← Memory.newId) children) children

/-- The filter of the keys that pass some part. -/
def anyOf (children : List Formula) : Run Formula := do
  if children.isEmpty then nothing
  else return or (orProfile (← Memory.newId) children) children

/-- The filter of the keys that pass one part and not the other. -/
def without (subtracted superset : Formula) : Run Formula := do
  return not (notProfile (← Memory.newId) subtracted superset) subtracted superset

/-- The filter of the keys that pass a part and have an accepted price, for a predicate that can be
used on the index. -/
def pricedBy (source : Formula) (prices : PriceIndex) (predicate : AmountPredicate) :
    Run Formula := do
  return price (priceProfile (← Memory.newId) source prices predicate) source prices predicate

/-- The filter of the keys that pass a part and have an accepted price. -/
def priced (source : Formula) (prices : PriceIndex) (predicate : AmountPredicate) :
    ExceptT Error Run Formula := do
  match prices.check predicate with
  | .ok () => pricedBy source prices predicate
  | .error e => throw e

/-- The result of a computation in its place. It counts as computed from the start. -/
def surrogate (f : Formula) (keys : CandidateSet) : Run Formula := do
  let id ← Memory.newId
  modify (·.markComputed id)
  return cached (cachedProfile id f keys) keys

/-- A computation whose outcome is reported. -/
def observe (inner : Formula) (observer : Observer) (savedCost : Nat) : Run Formula := do
  return observed (observedProfile (← Memory.newId) inner) inner observer savedCost

/-- Whether two sequences hold the same objects. -/
def sameObjects (f g : List Formula) : Bool := f.map id == g.map id

/-- A node of the same kind over other parts. With the parts that it has, and with fewer parts than
its kind needs, a formula stays what it is. -/
def withChildren (f : Formula) (children : List Formula) : Run Formula :=
  if sameObjects f.children children then return f
  else
    match f, children with
    | and _ _, children => allOf children
    | or _ _, children => anyOf children
    | not _ _ _, subtracted :: superset :: _ => without subtracted superset
    | price _ _ prices predicate, source :: _ => pricedBy source prices predicate
    | observed _ _ observer savedCost, inner :: _ => observe inner observer savedCost
    | f, _ => return f

/-- With the parts that it has, a formula stays what it is. -/
theorem withChildren_of_same (f : Formula) : f.withChildren f.children = pure f := by
  simp [withChildren, sameObjects]

/-- A conjunction has the intersection of the results of its parts. -/
theorem result_and (id : NodeId) (children : List Formula) :
    (and (andProfile id children) children).result = .interAll (children.map result) := rfl

/-- A disjunction has the union of the results of its parts. -/
theorem result_or (id : NodeId) (children : List Formula) :
    (or (orProfile id children) children).result = .unionAll (children.map result) := rfl

/-- A difference has the difference of the results of its parts. -/
theorem result_not (id : NodeId) (f g : Formula) :
    (not (notProfile id f g) f g).result = g.result.diff f.result := rfl

/-- A price filter selects from the result of its source. -/
theorem result_price (id : NodeId) (source : Formula) (prices : PriceIndex)
    (predicate : AmountPredicate) :
    (price (priceProfile id source prices predicate) source prices predicate).result
      = prices.select predicate source.result := rfl

/-- A key passes a conjunction with parts exactly when it passes all of them. -/
theorem mem_result_and {id : NodeId} {children : List Formula} {k : Nat} (h : children ≠ []) :
    k ∈ (and (andProfile id children) children).result ↔ ∀ c ∈ children, k ∈ c.result := by
  rw [result_and, CandidateSet.mem_interAll (by simpa using h)]
  simp

/-- A key passes a disjunction exactly when it passes some part. -/
theorem mem_result_or {id : NodeId} {children : List Formula} {k : Nat} :
    k ∈ (or (orProfile id children) children).result ↔ ∃ c ∈ children, k ∈ c.result := by
  rw [result_or, CandidateSet.mem_unionAll]
  simp only [List.mem_map]
  exact ⟨fun ⟨_, ⟨c, hc, e⟩, hk⟩ => ⟨c, hc, e ▸ hk⟩, fun ⟨c, hc, hk⟩ => ⟨_, ⟨c, hc, rfl⟩, hk⟩⟩

/-- A key passes a difference exactly when it passes the superset and not the subtracted part. -/
theorem mem_result_not {id : NodeId} {f g : Formula} {k : Nat} :
    k ∈ (not (notProfile id f g) f g).result ↔ k ∈ g.result ∧ ¬k ∈ f.result := by
  rw [result_not, CandidateSet.mem_diff]

/-- A key passes a price filter exactly when it passes the source and has a price that is accepted.
-/
theorem mem_result_price {id : NodeId} {source : Formula} {prices : PriceIndex}
    {predicate : AmountPredicate} {k : Nat} :
    k ∈ (price (priceProfile id source prices predicate) source prices predicate).result
      ↔ k ∈ source.result ∧ k ∈ prices.entities
        ∧ (predicate.isAll = true ∨ ∃ r ∈ prices.pricesOf k, predicate.testPrice r = true) := by
  rw [result_price, PriceIndex.select]
  split
  · simp_all
  · simp_all [and_assoc, PriceIndex.pricesOf]

end Formula

end EntityQuery
