import EntityQuery.Proofs.Sort.FullOrder
import EntityQuery.Proofs.Sort.Interleave

/-!
# What a merged order lists

Interleaving is a loop over the heads of the providers: as long as a provider has records left, the
least of the records that come next is taken. `Interleaves` describes such a loop by its steps, for
any number of providers, and `MergeMode.interleaves_merge` says that this is how records are merged.
What has been taken precedes what is left in every provider, so the records come out in order
(`Interleaves.pairwise`).

A merged order then keeps each key at its first record. That one precedes all records of the key and
of the keys that follow (`pairwise_eraseDups`). So in ascending order the keys come by their least
values, and in descending order by their greatest ones (`MergedRecords.compute_ofProviders`).
-/

namespace EntityQuery

/-! ## Taking the least of the next elements -/

section Interleaves

variable {α : Type} {le : α → α → Bool}

/-- A sequence that comes of taking from runs, as long as one of them has elements left, the least
of the elements that come next, and the one of the earlier run among equals. -/
inductive Interleaves (le : α → α → Bool) : List (List α) → List α → Prop
  /-- Nothing is left in any run. -/
  | done {runs : List (List α)} (h : ∀ run ∈ runs, run = []) : Interleaves le runs []
  /-- The next element of one run is the least. -/
  | take {x : α} {run out : List α} {before after : List (List α)}
      (hbefore : ∀ earlier ∈ before, ∀ y ∈ earlier.head?, ¬le y x)
      (hafter : ∀ later ∈ after, ∀ y ∈ later.head?, le x y)
      (hrest : Interleaves le (before ++ run :: after) out) :
      Interleaves le (before ++ (x :: run) :: after) (x :: out)

namespace Interleaves

/-- What is taken is what the runs hold. -/
theorem perm {runs : List (List α)} {out : List α} (h : Interleaves le runs out) :
    out.Perm runs.flatten := by
  induction h with
  | done h => rw [List.flatten_eq_nil_iff.mpr h]
  | @take x run out before after _ _ _ ih =>
    rw [List.flatten_append, List.flatten_cons] at ih ⊢
    exact (ih.cons x).trans List.perm_middle.symm

/-- A run without elements makes no difference. -/
theorem nil_cons {runs : List (List α)} {out : List α} (h : Interleaves le runs out) :
    Interleaves le ([] :: runs) out := by
  induction h with
  | done h => exact done (List.forall_mem_cons.mpr ⟨rfl, h⟩)
  | @take x run out before after hbefore hafter _ ih =>
    have hnone : ∀ y ∈ ([] : List α).head?, ¬le y x := fun y hy => nomatch hy
    rw [← List.cons_append] at ih ⊢
    exact take (List.forall_mem_cons.mpr ⟨hnone, hbefore⟩) hafter ih

/-- One run alone is taken as it is. -/
theorem single (run : List α) {runs : List (List α)} (h : ∀ run ∈ runs, run = []) :
    Interleaves le (run :: runs) run := by
  induction run with
  | nil => exact done (List.forall_mem_cons.mpr ⟨rfl, h⟩)
  | cons x run ih =>
    have hafter : ∀ later ∈ runs, ∀ y ∈ later.head?, le x y := by
      intro later hlater y hy
      rw [h later hlater] at hy
      exact nomatch hy
    rw [← List.nil_append ((x :: run) :: runs)]
    exact take (fun earlier he => nomatch he) hafter ih

/-- Merging one more run with what is taken from others is taking from them all. -/
theorem merge (htrans : ∀ x y z, le x y → le y z → le x z) (htotal : ∀ x y, le x y || le y x)
    (run : List α) {runs : List (List α)} {out : List α} (h : Interleaves le runs out) :
    Interleaves le (run :: runs) (run.merge out le) := by
  -- Each step takes an element of the run or one of the others, and the other side stays.
  induction run generalizing runs out with
  | nil =>
    rw [List.nil_merge]
    exact h.nil_cons
  | cons x run ihrun =>
    induction h with
    | done hempty =>
      rw [List.merge_right]
      exact single (x :: run) hempty
    | @take y other out before after hbefore hafter hrest ih =>
      rw [List.cons_merge_cons]
      by_cases hxy : le x y
      · -- The element precedes the least of the others, and so all that come next there.
        have hleast : ∀ later ∈ before ++ (y :: other) :: after, ∀ z ∈ later.head?, le x z := by
          intro later hlater z hz
          rcases List.mem_append.mp hlater with hmem | hmem
          · have hyz :=
              (Bool.or_eq_true_iff.mp (htotal y z)).resolve_right (hbefore later hmem z hz)
            exact htrans x y z hxy hyz
          · rcases List.mem_cons.mp hmem with rfl | hmem
            · obtain rfl : y = z := Option.some.inj hz
              exact hxy
            · exact htrans x y z hxy (hafter later hmem z hz)
        rw [if_pos hxy, ← List.nil_append ((x :: run) :: _)]
        exact take (fun earlier he => nomatch he) hleast (ihrun (take hbefore hafter hrest))
      · have hhead : ∀ z ∈ (x :: run).head?, ¬le z y := by
          rintro z ⟨⟩
          exact hxy
        rw [if_neg hxy, ← List.cons_append]
        exact take (List.forall_mem_cons.mpr ⟨hhead, hbefore⟩) hafter ih

/-- Where the runs are in an order that the choice of the least respects, what is taken is in that
order: each element comes before all that are left. -/
theorem pairwise {R : α → α → Prop} (htrans : ∀ x y z, R x y → R y z → R x z)
    (hle : ∀ x y, le x y → R x y) (hnot : ∀ x y, ¬le y x → R x y)
    {runs : List (List α)} {out : List α} (h : Interleaves le runs out)
    (hruns : ∀ run ∈ runs, run.Pairwise R) : out.Pairwise R := by
  induction h with
  | done _ => exact List.Pairwise.nil
  | @take x run out before after hbefore hafter hrest ih =>
    obtain ⟨hearlier, htaken, hlater⟩ := List.forall_mem_append.mp hruns |>.imp_right
      List.forall_mem_cons.mp
    obtain ⟨hx, hrun⟩ := List.pairwise_cons.mp htaken
    -- A head that comes after `x` has its whole run after `x`.
    have hof {other : List α} (hother : other.Pairwise R) (hhead : ∀ y ∈ other.head?, R x y) :
        ∀ z ∈ other, R x z := by
      cases other with
      | nil => exact fun z hz => nomatch hz
      | cons y rest =>
        have hy := hhead y rfl
        exact List.forall_mem_cons.mpr
          ⟨hy, fun z hz => htrans x y z hy (List.rel_of_pairwise_cons hother hz)⟩
    refine List.pairwise_cons.mpr ⟨fun z hz => ?_, ih ?_⟩
    · obtain ⟨other, hother, hzother⟩ := List.mem_flatten.mp (hrest.perm.mem_iff.mp hz)
      rcases List.mem_append.mp hother with hmem | hmem
      · exact hof (hearlier other hmem) (fun y hy => hnot x y (hbefore other hmem y hy)) z hzother
      · rcases List.mem_cons.mp hmem with rfl | hmem
        · exact hx z hzother
        · exact hof (hlater other hmem) (fun y hy => hle x y (hafter other hmem y hy)) z hzother
    · exact List.forall_mem_append.mpr ⟨hearlier, List.forall_mem_cons.mpr ⟨hrun, hlater⟩⟩

end Interleaves

end Interleaves

/-! ## The first record of each key -/

/-- Records in an order that lists a record before itself: of two keys that are listed in turn, the
first record of the one comes before all records of both. -/
theorem pairwise_eraseDups {R : SortedRecord → SortedRecord → Prop} (hrefl : ∀ a, R a a)
    {records : List SortedRecord} (h : records.Pairwise R) :
    (records.map (·.key)).eraseDups.Pairwise fun k l =>
      ∃ a ∈ records, a.key = k ∧ ∀ c ∈ records, c.key = k ∨ c.key = l → R a c := by
  match records with
  | [] => exact List.Pairwise.nil
  | a :: rest =>
    obtain ⟨ha, hrest⟩ := List.pairwise_cons.mp h
    -- The keys that follow are those of the records with other keys.
    let others := rest.filter fun c => c.key != a.key
    have hothers : (rest.map (·.key)).filter (fun k => !k == a.key) = others.map (·.key) :=
      List.filter_map
    have hkey {k : ℕ} (hk : k ∈ (others.map (·.key)).eraseDups) : k ≠ a.key := by
      obtain ⟨c, hc, rfl⟩ := List.mem_map.mp (List.mem_eraseDups.mp hk)
      exact bne_iff_ne.mp (List.mem_filter.mp hc).2
    rw [List.map_cons, List.eraseDups_cons, hothers]
    refine List.pairwise_cons.mpr ⟨fun l _ => ?_, ?_⟩
    · exact ⟨a, List.mem_cons_self, rfl, List.forall_mem_cons.mpr ⟨fun _ => hrefl a,
        fun c hc _ => ha c hc⟩⟩
    · refine (pairwise_eraseDups hrefl (hrest.filter _)).imp_of_mem fun {k l} hk hl hfirst => ?_
      obtain ⟨b, hb, hbk, hbefore⟩ := hfirst
      refine ⟨b, List.mem_cons_of_mem a (List.mem_filter.mp hb).1, hbk, fun c hc hckey => ?_⟩
      have hne : c.key ≠ a.key := by
        rcases hckey with rfl | rfl
        · exact hkey hk
        · exact hkey hl
      have hcrest : c ∈ rest := (List.mem_cons.mp hc).resolve_left fun hca => hne (by rw [hca])
      exact hbefore c (List.mem_filter.mpr ⟨hcrest, bne_iff_ne.mpr hne⟩) hckey
termination_by records.length
decreasing_by exact Nat.lt_succ_of_le (List.length_filter_le _ rest)

/-! ## Providers and their values -/

namespace RecordProvider

/-- A provider as its index publishes it: in its first version or in a later one. -/
inductive Published : RecordProvider → Prop
  | ofRecords (id : IndexId) (records : List SortedRecord) : Published (ofRecords id records)
  | next {p : RecordProvider} (records : List SortedRecord) (h : Published p) :
      Published (p.next records)

/-- A provider lists its records in order. -/
theorem Published.sorted {p : RecordProvider} (h : p.Published) :
    p.records.Pairwise fun a b => inOrder a b := by
  cases h with
  | ofRecords _ records => exact sorted_mergeSort records
  | next records _ => exact sorted_mergeSort records

/-- The values that a key has over all providers. -/
def valuesOf (providers : List RecordProvider) (k : ℕ) : List ℤ :=
  ((providers.flatMap (·.records)).filter (·.key = k)).map (·.value)

/-- The least value that a key has in a provider. -/
def leastValue (providers : List RecordProvider) (k : ℕ) : Option ℤ := (valuesOf providers k).min?

/-- The greatest value that a key has in a provider. -/
def greatestValue (providers : List RecordProvider) (k : ℕ) : Option ℤ :=
  (valuesOf providers k).max?

variable {providers : List RecordProvider}

/-- The values of a key are those beside it in some provider. -/
theorem mem_valuesOf {k : ℕ} {v : ℤ} :
    v ∈ valuesOf providers k ↔ ∃ p ∈ providers, ⟨v, k⟩ ∈ p.records := by
  simp only [valuesOf, List.mem_map, List.mem_filter, List.mem_flatMap, decide_eq_true_eq]
  constructor
  · rintro ⟨⟨w, l⟩, ⟨hr, rfl⟩, rfl⟩
    exact hr
  · rintro ⟨p, hp, hr⟩
    exact ⟨⟨v, k⟩, ⟨⟨p, hp, hr⟩, rfl⟩, rfl⟩

/-- The least value of a key is one of its values, and none is less. -/
theorem leastValue_eq_some {k : ℕ} {v : ℤ} : leastValue providers k = some v ↔
    v ∈ valuesOf providers k ∧ ∀ w ∈ valuesOf providers k, v ≤ w :=
  List.min?_eq_some_iff

/-- The greatest value of a key is one of its values, and none is greater. -/
theorem greatestValue_eq_some {k : ℕ} {v : ℤ} : greatestValue providers k = some v ↔
    v ∈ valuesOf providers k ∧ ∀ w ∈ valuesOf providers k, w ≤ v :=
  List.max?_eq_some_iff

end RecordProvider

/-! ## The merged order -/

namespace MergeMode

open RecordProvider

variable {providers : List RecordProvider}

/-- Interleaving takes the least of the records that come next in their providers, as long as one of
them has records left. -/
theorem interleaves_merge (direction : Direction) (providers : List RecordProvider) :
    Interleaves direction.precedes (providers.map fun p => direction.arrange p.records)
      (interleave.merge direction providers) := by
  unfold merge
  induction providers with
  | nil => exact .done fun run hrun => nomatch hrun
  | cons p rest ih => exact ih.merge direction.precedes_trans direction.precedes_total _

/-- Interleaved providers list their records by ascending or by descending values. -/
theorem interleave_pairwise_weight (direction : Direction) (h : ∀ p ∈ providers, p.Published) :
    (interleave.merge direction providers).Pairwise fun a b =>
      direction.weight a.value ≤ direction.weight b.value := by
  have hprecedes {a b : SortedRecord} : direction.precedes a b ↔
      direction.weight a.value < direction.weight b.value ∨
        direction.weight a.value = direction.weight b.value ∧ a.key ≤ b.key := decide_eq_true_iff
  -- Keys are left out here: equal values of one provider come with descending keys when reversed.
  refine (interleaves_merge direction providers).pairwise (fun a b c hab hbc => ?_)
    (fun a b hab => ?_) (fun a b hba => ?_) fun run hrun => ?_
  · exact Int.le_trans hab hbc
  · have := hprecedes.mp hab
    omega
  · have := mt hprecedes.mpr hba
    omega
  · obtain ⟨p, hp, rfl⟩ := List.mem_map.mp hrun
    have hvalue : p.records.Pairwise fun a b => a.value ≤ b.value := by
      refine (h p hp).sorted.imp fun {a b} hab => ?_
      have := of_decide_eq_true hab
      omega
    cases direction with
    | ascending => exact hvalue
    | descending => exact List.pairwise_reverse.mpr (hvalue.imp Int.neg_le_neg)

/-- A key is listed with a value exactly when it has the value in some provider. -/
theorem mem_merge_iff_mem_valuesOf {mode : MergeMode} {direction : Direction} {k : ℕ} {v : ℤ} :
    ⟨v, k⟩ ∈ mode.merge direction providers ↔ v ∈ valuesOf providers k := by
  rw [mem_merge, mem_valuesOf]

end MergeMode

namespace MergedRecords

open RecordProvider

variable {providers : List RecordProvider}

/-- A merged order lists the keys of the providers. -/
theorem mem_mergedKeys {mode : MergeMode} {direction : Direction} {k : ℕ} :
    k ∈ mergedKeys mode direction providers ↔ ∃ v, v ∈ valuesOf providers k := by
  rw [mergedKeys, firstOccurrences_eq, List.mem_eraseDups, List.mem_map]
  constructor
  · rintro ⟨r, hr, rfl⟩
    exact ⟨r.value, MergeMode.mem_merge_iff_mem_valuesOf.mp hr⟩
  · rintro ⟨v, hv⟩
    exact ⟨⟨v, k⟩, MergeMode.mem_merge_iff_mem_valuesOf.mpr hv, rfl⟩

/-- A merged order lists each key once. -/
theorem nodup_mergedKeys (mode : MergeMode) (direction : Direction)
    (providers : List RecordProvider) : (mergedKeys mode direction providers).Nodup := by
  rw [mergedKeys, firstOccurrences_eq]
  exact nodup_eraseDups _

/-- What a relation between the first record of a key and the records of the next key says of the
merged keys. -/
theorem mergedKeys_pairwise {mode : MergeMode} {direction : Direction}
    {R : SortedRecord → SortedRecord → Prop} (hrefl : ∀ a, R a a)
    (h : (mode.merge direction providers).Pairwise R) :
    (mergedKeys mode direction providers).Pairwise fun k l =>
      k ≠ l ∧ ∃ v ∈ valuesOf providers k, (∀ u ∈ valuesOf providers k, R ⟨v, k⟩ ⟨u, k⟩) ∧
        ∀ u ∈ valuesOf providers l, R ⟨v, k⟩ ⟨u, l⟩ := by
  refine (nodup_mergedKeys mode direction providers).and ?_
  rw [mergedKeys, firstOccurrences_eq]
  refine (pairwise_eraseDups hrefl h).imp fun {k l} hfirst => ?_
  obtain ⟨⟨v, k⟩, hv, rfl, hbefore⟩ := hfirst
  refine ⟨v, MergeMode.mem_merge_iff_mem_valuesOf.mp hv, fun u hu => ?_, fun u hu => ?_⟩
  · exact hbefore ⟨u, k⟩ (MergeMode.mem_merge_iff_mem_valuesOf.mpr hu) (.inl rfl)
  · exact hbefore ⟨u, l⟩ (MergeMode.mem_merge_iff_mem_valuesOf.mpr hu) (.inr rfl)

/-- Interleaved in ascending order, the keys come by their least values, and ascending among keys of
the same least value. -/
theorem interleave_ascending (h : ∀ p ∈ providers, p.Published) :
    (mergedKeys .interleave .ascending providers).Pairwise fun k l =>
      ∃ v ∈ leastValue providers k, ∃ w ∈ leastValue providers l, v < w ∨ v = w ∧ k < l := by
  have hsorted := MergeMode.interleave_ascending_sorted fun p hp => (h p hp).sorted
  refine (mergedKeys_pairwise (fun a => ?_) hsorted).imp_of_mem fun {k l} hk hl hfirst => ?_
  · simp [inOrder]
  · obtain ⟨hne, v, hv, hleast, hbefore⟩ := hfirst
    simp only [inOrder, decide_eq_true_eq] at hleast hbefore
    obtain ⟨w, hw⟩ : ∃ w, leastValue providers l = some w := by
      obtain ⟨u, hu⟩ := mem_mergedKeys.mp hl
      exact Option.isSome_iff_exists.mp (List.isSome_min?_of_mem hu)
    have hvw := hbefore w (leastValue_eq_some.mp hw).1
    refine ⟨v, leastValue_eq_some.mpr ⟨hv, fun u hu => ?_⟩, w, hw, ?_⟩
    · have := hleast u hu
      omega
    · omega

/-- Interleaved in descending order, no key comes before one of a greater greatest value. -/
theorem interleave_descending (h : ∀ p ∈ providers, p.Published) :
    (mergedKeys .interleave .descending providers).Pairwise fun k l =>
      ∃ v ∈ greatestValue providers k, ∃ w ∈ greatestValue providers l, w ≤ v := by
  have hsorted := MergeMode.interleave_pairwise_weight .descending h
  have hordered := mergedKeys_pairwise (fun a => Int.le_refl _) hsorted
  refine hordered.imp_of_mem fun {k l} hk hl hfirst => ?_
  obtain ⟨-, v, hv, hgreatest, hbefore⟩ := hfirst
  obtain ⟨w, hw⟩ : ∃ w, greatestValue providers l = some w := by
    obtain ⟨u, hu⟩ := mem_mergedKeys.mp hl
    exact Option.isSome_iff_exists.mp (List.isSome_max?_of_mem hu)
  refine ⟨v, greatestValue_eq_some.mpr ⟨hv, fun u hu => ?_⟩, w, hw, ?_⟩
  · exact Int.neg_le_neg_iff.mp (hgreatest u hu)
  · exact Int.neg_le_neg_iff.mp (hbefore w (greatestValue_eq_some.mp hw).1)

/-- What is computed for providers are their merged keys. -/
theorem compute_eq_mergedKeys (providers : List RecordProvider) (mode : MergeMode)
    (direction : Direction) (m m' : Memory) :
    ((ofProviders providers mode direction m).1.compute m').1
      = mergedKeys mode direction providers :=
  rfl

/-- What is computed for published providers. Appending lists the keys of one provider after the
other, each at its first occurrence only, where a provider lists its records ascending by value and
key, or the other way round. Interleaving lists every key that occurs in a provider, and each once:
in ascending order by the least value that the key has in a provider and then by the key, and in
descending order so that the greatest values of the keys never increase. -/
theorem compute_ofProviders (providers : List RecordProvider)
    (hproviders : ∀ p ∈ providers, p.Published) (m m' : Memory) :
    let order (mode : MergeMode) (direction : Direction) : List ℕ :=
      ((ofProviders providers mode direction m).1.compute m').1
    (∀ p ∈ providers, p.records.Pairwise fun a b => inOrder a b) ∧
      (∀ direction, order .appendFirst direction
        = ((providers.flatMap fun p => direction.arrange p.records).map (·.key)).eraseDups) ∧
      (∀ direction, (order .interleave direction).Nodup ∧
        ∀ k, k ∈ order .interleave direction ↔ ∃ p ∈ providers, ∃ r ∈ p.records, r.key = k) ∧
      ((order .interleave .ascending).Pairwise fun k l =>
        ∃ v ∈ leastValue providers k, ∃ w ∈ leastValue providers l, v < w ∨ v = w ∧ k < l) ∧
      (order .interleave .descending).Pairwise fun k l =>
        ∃ v ∈ greatestValue providers k, ∃ w ∈ greatestValue providers l, w ≤ v := by
  have happend (direction : Direction) : mergedKeys .appendFirst direction providers
      = ((providers.flatMap fun p => direction.arrange p.records).map (·.key)).eraseDups := by
    rw [mergedKeys, firstOccurrences_eq, List.flatMap_def]
    rfl
  have hmem (direction : Direction) (k : ℕ) : k ∈ mergedKeys .interleave direction providers ↔
      ∃ p ∈ providers, ∃ r ∈ p.records, r.key = k := by
    simp only [mem_mergedKeys, mem_valuesOf]
    constructor
    · rintro ⟨v, p, hp, hr⟩
      exact ⟨p, hp, ⟨v, k⟩, hr, rfl⟩
    · rintro ⟨p, hp, r, hr, rfl⟩
      exact ⟨r.value, p, hp, hr⟩
  simp only [compute_eq_mergedKeys]
  exact ⟨fun p hp => (hproviders p hp).sorted, happend,
    fun direction => ⟨nodup_mergedKeys .interleave direction providers, hmem direction⟩,
    interleave_ascending hproviders, interleave_descending hproviders⟩

/-- Three providers, of which the second has no records and the third, in its second version, has
two keys of the first with other values. -/
def sharing : List RecordProvider :=
  [.ofRecords 1 [⟨9, 12⟩, ⟨1, 10⟩, ⟨4, 11⟩], .ofRecords 2 [],
    (RecordProvider.ofRecords 3 []).next [⟨4, 21⟩, ⟨2, 12⟩, ⟨4, 10⟩]]

/-- The three providers appended, and interleaved in both directions. Interleaving orders the shared
keys by their least or greatest values. -/
theorem compute_ofProviders_sharing :
    (∀ p ∈ sharing, p.Published) ∧
      ((ofProviders sharing .appendFirst .descending {}).1.compute {}).1 = [12, 11, 10, 21] ∧
      ((ofProviders sharing .interleave .ascending {}).1.compute {}).1 = [10, 12, 11, 21] ∧
      ((ofProviders sharing .interleave .descending {}).1.compute {}).1 = [12, 11, 21, 10] ∧
      ([10, 12, 11, 21].Pairwise fun k l =>
        ∃ v ∈ leastValue sharing k, ∃ w ∈ leastValue sharing l, v < w ∨ v = w ∧ k < l) ∧
      [12, 11, 21, 10].Pairwise fun k l =>
        ∃ v ∈ greatestValue sharing k, ∃ w ∈ greatestValue sharing l, w ≤ v := by
  have hpublished : ∀ p ∈ sharing, p.Published := by
    simp only [sharing, List.forall_mem_cons]
    exact ⟨.ofRecords 1 _, .ofRecords 2 _, .next _ (.ofRecords 3 _), fun p hp => nomatch hp⟩
  have happend : mergedKeys .appendFirst .descending sharing = [12, 11, 10, 21] := by cbv
  have hascending : mergedKeys .interleave .ascending sharing = [10, 12, 11, 21] := by cbv
  have hdescending : mergedKeys .interleave .descending sharing = [12, 11, 21, 10] := by cbv
  obtain ⟨-, -, -, hleast, hgreatest⟩ := compute_ofProviders sharing hpublished {} {}
  simp only [compute_eq_mergedKeys, hascending, hdescending] at hleast hgreatest
  simp only [compute_eq_mergedKeys]
  exact ⟨hpublished, happend, hascending, hdescending, hleast, hgreatest⟩

end MergedRecords

end EntityQuery
