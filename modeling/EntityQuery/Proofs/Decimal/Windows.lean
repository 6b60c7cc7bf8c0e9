import EntityQuery.Amount
import EntityQuery.Proofs.Decimal.Conversion

/-!
# Windows between decimals

The bounds of a window are decimals, and so are the amounts that it is asked about, but all of them
are rounded before they are compared.

Two decimals make a window exactly when both have values and the values are the right way round
(`AmountPredicate.between_eq_ok_iff`). Such a window accepts the amounts between the two values and
keeps out all others, and it accepts the prices whose amount it accepts; only a window without
bounds accepts a price that has no amount (`AmountPredicate.accepts_between`).

Rounding keeps the order of numbers (`Decimal.ofText_mono`): it may make two bounds equal that are
the wrong way round, but it never turns bounds around that are not. So what lies between two
decimals is accepted by the window between them, and a window whose bounds are wider accepts
whatever a narrower one accepts (`AmountPredicate.between_keeps`).
-/

namespace EntityQuery

namespace Decimal

/-! ## The order of decimals -/

/-- The number that a literal stands for. -/
def Literal.value (l : Literal) : ℚ := if l.negative then -l.size else l.size

/-- Numbers are rounded in their order. -/
theorem Literal.rounded_mono {l l' : Literal} (h : l.value ≤ l'.value) (places : ℕ) :
    l.rounded places ≤ l'.rounded places := by
  have hround {x y : ℚ} (hxy : x ≤ y) : round (x * 10 ^ places) ≤ round (y * 10 ^ places) := by
    rw [round_eq, round_eq]
    exact Int.floor_mono (by gcongr)
  have hnonneg := l.round_nonneg places
  have hnonneg' := l'.round_nonneg places
  unfold value at h
  unfold rounded
  split_ifs at h ⊢
  · -- Of two negative numbers, the smaller one has the larger size.
    exact neg_le_neg (hround (neg_le_neg_iff.mp h))
  · omega
  · -- A number that is not negative is below a negative one only if both of them are zero.
    have hsize : 0 ≤ l.size := (by positivity : (0 : ℚ) ≤ _).trans l.whole_le_size
    have hsize' : 0 ≤ l'.size := (by positivity : (0 : ℚ) ≤ _).trans l'.whole_le_size
    have hzero : l.size = 0 := by linarith
    have hzero' : l'.size = 0 := by linarith
    simp [hzero, hzero']
  · exact hround h

/-- Whether a text is a literal of some number. -/
def Denotes (text : String) (x : ℚ) : Prop :=
  ∃ l : Literal, l.Written (Text.trim text.toList) ∧ l.value = x

/-- Whether two texts are literals, the first one of a number that is no larger. -/
def NoLarger (text text' : String) : Prop := ∃ x x', Denotes text x ∧ Denotes text' x' ∧ x ≤ x'

variable {text text' : String} {places : ℕ}

/-- The parts that texts are split into tell whether they are literals, and which one is of the
smaller number. -/
theorem noLarger_of_parts (h : (Literal.ofChars (Text.trim text.toList)).isDecimal = true)
    (h' : (Literal.ofChars (Text.trim text'.toList)).isDecimal = true)
    (hle : (Literal.ofChars (Text.trim text.toList)).value
      ≤ (Literal.ofChars (Text.trim text'.toList)).value) : NoLarger text text' :=
  ⟨_, _, ⟨_, Literal.written_ofChars h, rfl⟩, ⟨_, Literal.written_ofChars h', rfl⟩, hle⟩

/-- No text has a value at more places than are supported. -/
theorem places_le_of_ofText {v : ℤ} (h : ofText text places = .ok v) : places ≤ maxPlaces := by
  by_contra hgt
  rw [ofText_of_places_gt (not_le.mp hgt)] at h
  cases h

/-- What a literal is converted to is what it is rounded to. -/
theorem eq_rounded_of_ofText {l : Literal} (hl : l.Written (Text.trim text.toList)) {v : ℤ}
    (h : ofText text places = .ok v) : v = l.rounded places := by
  rcases ofText_of_written_cases (places_le_of_ofText h) hl with hok | ⟨herror, -⟩
  · exact Except.ok.inj (h.symm.trans hok)
  · rw [herror] at h
    cases h

/-- Literals are converted in the order of their numbers. -/
theorem ofText_mono (h : NoLarger text text') {v v' : ℤ} (hv : ofText text places = .ok v)
    (hv' : ofText text' places = .ok v') : v ≤ v' := by
  obtain ⟨_, _, ⟨l, hl, rfl⟩, ⟨l', hl', rfl⟩, hle⟩ := h
  rw [eq_rounded_of_ofText hl hv, eq_rounded_of_ofText hl' hv']
  exact Literal.rounded_mono hle places

end Decimal

open Decimal (ofText NoLarger)

/-! ## Windows -/

/-- A window between two decimals, either of which may be missing. -/
structure DecimalWindow where
  /-- The least decimal in it. -/
  lower : Option String
  /-- The greatest decimal in it. -/
  upper : Option String

namespace DecimalWindow

/-- Whether the bounds that there are have values at some number of places. -/
structure Convertible (w : DecimalWindow) (places : ℕ) : Prop where
  /-- The lower bound has a value. -/
  lower : ∀ l ∈ w.lower, ∃ v, ofText l places = .ok v
  /-- So has the upper one. -/
  upper : ∀ u ∈ w.upper, ∃ v, ofText u places = .ok v

/-- Whether a decimal lies between the bounds that there are. -/
structure Contains (w : DecimalWindow) (text : String) : Prop where
  /-- The lower bound is no larger. -/
  lower : ∀ l ∈ w.lower, NoLarger l text
  /-- The upper bound is no smaller. -/
  upper : ∀ u ∈ w.upper, NoLarger text u

/-- Whether the bounds of a window enclose those of another one, which then has them where this one
has. -/
structure Encloses (wider w : DecimalWindow) : Prop where
  /-- A lower bound is no larger than the one that it encloses. -/
  lower : ∀ l' ∈ wider.lower, ∃ l ∈ w.lower, NoLarger l' l
  /-- An upper bound is no smaller than the one that it encloses. -/
  upper : ∀ u' ∈ wider.upper, ∃ u ∈ w.upper, NoLarger u u'

end DecimalWindow

namespace AmountPredicate

variable {mode : ValueMode} {lower upper : Option String} {places : ℕ} {p : AmountPredicate}

/-- A bound that has a value is converted. -/
theorem exists_bound {literal : Option String} (h : ∀ t ∈ literal, ∃ v, ofText t places = .ok v) :
    ∃ b, bound literal places = .ok b := by
  cases literal with
  | none => exact ⟨none, rfl⟩
  | some text =>
    obtain ⟨v, hv⟩ := h text rfl
    exact ⟨some v, by simp [bound, hv]⟩

/-- A bound is converted to its value, and where there is none, there is no value. -/
theorem mem_bound {literal : Option String} {b : Option ℤ} (h : bound literal places = .ok b) :
    (∀ t ∈ literal, ∃ v ∈ b, ofText t places = .ok v) ∧
      ∀ v ∈ b, ∃ t ∈ literal, ofText t places = .ok v := by
  cases literal with
  | none =>
    obtain rfl : none = b := Except.ok.inj h
    simp
  | some text =>
    cases htext : ofText text places with
    | error e => simp [bound, htext] at h
    | ok v =>
      obtain rfl : some v = b := by simpa [bound, htext] using h
      simp [htext]

/-! ## What a window accepts -/

/-- Two decimals, either of which may be missing, make a window exactly when those that there are
have values, the lower one no larger than the upper one. A window without bounds reads no amount. -/
theorem between_eq_ok_iff :
    between mode lower upper places = .ok p ↔
      ∃ low high, bound lower places = .ok low ∧ bound upper places = .ok high ∧
        (∀ l ∈ low, ∀ h ∈ high, l ≤ h) ∧
        p = if lower = none ∧ upper = none then all else range mode low high places := by
  by_cases hnone : lower = none ∧ upper = none
  · obtain ⟨rfl, rfl⟩ := hnone
    simp [between, bound, eq_comm]
  · have hbounded : ¬(lower.isNone && upper.isNone) = true := by
      simpa [Option.isNone_iff_eq_none] using hnone
    unfold between
    rw [if_neg hbounded]
    cases hlow : bound lower places with
    | error e => simp [bind, Except.bind]
    | ok low =>
      cases hhigh : bound upper places with
      | error e => simp [bind, Except.bind]
      | ok high =>
        cases low with
        | none => simp [bind, Except.bind, hnone, eq_comm]
        | some l =>
          cases high with
          | none => simp [bind, Except.bind, hnone, eq_comm]
          | some h =>
            by_cases hinverted : h < l
            · simp [bind, Except.bind, hinverted]
            · simp [bind, Except.bind, hinverted, not_lt.mp hinverted, hnone, eq_comm]

/-- What the window between two decimals accepts, and nothing else: the amounts between their
values, and the prices whose amount it accepts, or all prices where there are no bounds. -/
theorem accepts_between (h : between mode lower upper places = .ok p) :
    ∃ low high, bound lower places = .ok low ∧ bound upper places = .ok high ∧
      (∀ l ∈ low, ∀ h ∈ high, l ≤ h) ∧
      (∀ v, p.test v = true ↔ (∀ l ∈ low, l ≤ v) ∧ ∀ h ∈ high, v ≤ h) ∧
      ∀ price, p.testPrice price = true ↔
        (lower = none ∧ upper = none) ∨ ∃ v ∈ mode.amount price, p.test v = true := by
  obtain ⟨low, high, hlow, hhigh, hle, rfl⟩ := between_eq_ok_iff.mp h
  refine ⟨low, high, hlow, hhigh, hle, ?_⟩
  by_cases hnone : lower = none ∧ upper = none
  · obtain ⟨rfl, rfl⟩ := hnone
    obtain rfl : none = low := Except.ok.inj hlow
    obtain rfl : none = high := Except.ok.inj hhigh
    simp [test, testPrice]
  · rw [if_neg hnone]
    refine ⟨fun v => test_range, fun price => ?_⟩
    rw [or_iff_right hnone]
    exact Option.any_eq_true ..

/-! ## What windows keep -/

variable {w wider : DecimalWindow}

/-- The window between two decimals accepts what lies between them. -/
theorem between_contains (mode : ValueMode) (hw : w.Convertible places) {text : String} {v : ℤ}
    (hv : ofText text places = .ok v) (h : w.Contains text) :
    ∃ p, between mode w.lower w.upper places = .ok p ∧ p.test v = true := by
  obtain ⟨low, hlow⟩ := exists_bound hw.lower
  obtain ⟨high, hhigh⟩ := exists_bound hw.upper
  have hlower : ∀ l ∈ low, l ≤ v := by
    intro l hl
    obtain ⟨t, ht, htl⟩ := (mem_bound hlow).2 l hl
    exact Decimal.ofText_mono (h.lower t ht) htl hv
  have hupper : ∀ u ∈ high, v ≤ u := by
    intro u hu
    obtain ⟨t, ht, htu⟩ := (mem_bound hhigh).2 u hu
    exact Decimal.ofText_mono (h.upper t ht) hv htu
  obtain ⟨p, hp⟩ : ∃ p, between mode w.lower w.upper places = .ok p :=
    ⟨_, between_eq_ok_iff.mpr ⟨low, high, hlow, hhigh,
      fun l hl u hu => (hlower l hl).trans (hupper u hu), rfl⟩⟩
  obtain ⟨low', high', hlow', hhigh', -, htest, -⟩ := accepts_between hp
  obtain rfl := Except.ok.inj (hlow.symm.trans hlow')
  obtain rfl := Except.ok.inj (hhigh.symm.trans hhigh')
  exact ⟨p, hp, (htest v).mpr ⟨hlower, hupper⟩⟩

/-- A window whose bounds are wider accepts whatever a narrower one accepts. -/
theorem between_widened (hp : between mode w.lower w.upper places = .ok p)
    (hwider : wider.Convertible places) (h : wider.Encloses w) (mode' : ValueMode) :
    ∃ q, between mode' wider.lower wider.upper places = .ok q ∧
      (∀ v, p.test v = true → q.test v = true) ∧
      (mode' = mode → ∀ price, p.testPrice price = true → q.testPrice price = true) := by
  obtain ⟨low, high, hlow, hhigh, hle, htest, hprice⟩ := accepts_between hp
  obtain ⟨low', hlow'⟩ := exists_bound hwider.lower
  obtain ⟨high', hhigh'⟩ := exists_bound hwider.upper
  -- Where the wider window has a bound, so has the narrower one, and it is no looser.
  have hlower : ∀ l' ∈ low', ∃ l ∈ low, l' ≤ l := by
    intro l' hl'
    obtain ⟨t', ht', htl'⟩ := (mem_bound hlow').2 l' hl'
    obtain ⟨t, ht, hno⟩ := h.lower t' ht'
    obtain ⟨l, hl, htl⟩ := (mem_bound hlow).1 t ht
    exact ⟨l, hl, Decimal.ofText_mono hno htl' htl⟩
  have hupper : ∀ u' ∈ high', ∃ u ∈ high, u ≤ u' := by
    intro u' hu'
    obtain ⟨t', ht', htu'⟩ := (mem_bound hhigh').2 u' hu'
    obtain ⟨t, ht, hno⟩ := h.upper t' ht'
    obtain ⟨u, hu, htu⟩ := (mem_bound hhigh).1 t ht
    exact ⟨u, hu, Decimal.ofText_mono hno htu htu'⟩
  obtain ⟨q, hq⟩ : ∃ q, between mode' wider.lower wider.upper places = .ok q := by
    refine ⟨_, between_eq_ok_iff.mpr ⟨low', high', hlow', hhigh', fun l' hl' u' hu' => ?_, rfl⟩⟩
    obtain ⟨l, hl, hll⟩ := hlower l' hl'
    obtain ⟨u, hu, huu⟩ := hupper u' hu'
    exact (hll.trans (hle l hl u hu)).trans huu
  obtain ⟨low'', high'', hlow'', hhigh'', -, htest', hprice'⟩ := accepts_between hq
  obtain rfl := Except.ok.inj (hlow'.symm.trans hlow'')
  obtain rfl := Except.ok.inj (hhigh'.symm.trans hhigh'')
  have hamounts : ∀ v, p.test v = true → q.test v = true := by
    intro v hv
    obtain ⟨hlow, hhigh⟩ := (htest v).mp hv
    refine (htest' v).mpr ⟨fun l' hl' => ?_, fun u' hu' => ?_⟩
    · obtain ⟨l, hl, hll⟩ := hlower l' hl'
      exact hll.trans (hlow l hl)
    · obtain ⟨u, hu, huu⟩ := hupper u' hu'
      exact (hhigh u hu).trans huu
  refine ⟨q, hq, hamounts, ?_⟩
  rintro rfl price hpr
  refine (hprice' price).mpr ?_
  rcases (hprice price).mp hpr with ⟨hl, hu⟩ | ⟨v, hv, htv⟩
  · -- Nothing encloses a window without bounds but another one.
    refine .inl ⟨Option.eq_none_iff_forall_not_mem.mpr fun l' hl' => ?_,
      Option.eq_none_iff_forall_not_mem.mpr fun u' hu' => ?_⟩
    · obtain ⟨l, hmem, -⟩ := h.lower l' hl'
      simp [hl] at hmem
    · obtain ⟨u, hmem, -⟩ := h.upper u' hu'
      simp [hu] at hmem
  · exact .inr ⟨v, hv, hamounts v htv⟩

/-- A window between decimals never loses a value inside it, and it only grows when it is widened.
What lies between the bounds is accepted whenever it has a value, and then the bounds make a window;
and a window whose bounds are wider can be used where the narrower one can, and accepts every amount
that it accepts, and every price if they value prices alike. -/
theorem between_keeps (mode : ValueMode) (w : DecimalWindow) (places : ℕ) :
    (w.Convertible places → ∀ text v, ofText text places = .ok v → w.Contains text →
      ∃ p, between mode w.lower w.upper places = .ok p ∧ p.test v = true) ∧
    ∀ p, between mode w.lower w.upper places = .ok p → ∀ wider : DecimalWindow,
      wider.Convertible places → wider.Encloses w → ∀ mode',
        ∃ q, between mode' wider.lower wider.upper places = .ok q ∧
          (∀ v, p.test v = true → q.test v = true) ∧
          (mode' = mode → ∀ price, p.testPrice price = true → q.testPrice price = true) :=
  ⟨fun hw _ _ hv h => between_contains mode hw hv h,
    fun _ hp _ hwider h mode' => between_widened hp hwider h mode'⟩

/-- A bound that is a half is rounded away from zero, and the amount inside it the other way. -/
theorem between_keeps_half :
    let w : DecimalWindow := ⟨some "-1.005", some "0.5"⟩
    let wider : DecimalWindow := ⟨some " -1.0051", none⟩
    w.Convertible 2 ∧ ofText "-1.0049" 2 = .ok (-100) ∧ w.Contains "-1.0049" ∧
      wider.Convertible 2 ∧ wider.Encloses w ∧
      ∃ p q, between .withTax w.lower w.upper 2 = .ok p ∧
        between .withoutTax wider.lower wider.upper 2 = .ok q ∧
        p.test (-100) = true ∧ q.test (-100) = true := by
  intro w wider
  have hw : w.Convertible 2 :=
    ⟨by rintro _ ⟨⟩; exact ⟨-101, by decide⟩, by rintro _ ⟨⟩; exact ⟨50, by decide⟩⟩
  have hvalue : ofText "-1.0049" 2 = .ok (-100) := by decide
  have hcontains : w.Contains "-1.0049" :=
    ⟨by rintro _ ⟨⟩; exact Decimal.noLarger_of_parts (by decide) (by decide) (by decide +kernel),
      by rintro _ ⟨⟩; exact Decimal.noLarger_of_parts (by decide) (by decide) (by decide +kernel)⟩
  have hwider : wider.Convertible 2 := ⟨by rintro _ ⟨⟩; exact ⟨-101, by decide⟩, by rintro _ ⟨⟩⟩
  have hencloses : wider.Encloses w :=
    ⟨by
      rintro _ ⟨⟩
      exact ⟨_, rfl, Decimal.noLarger_of_parts (by decide) (by decide) (by decide +kernel)⟩,
      by rintro _ ⟨⟩⟩
  obtain ⟨hinside, hwidened⟩ := between_keeps .withTax w 2
  obtain ⟨p, hp, hpv⟩ := hinside hw "-1.0049" (-100) hvalue hcontains
  obtain ⟨q, hq, hpq, -⟩ := hwidened p hp wider hwider hencloses .withoutTax
  exact ⟨hw, hvalue, hcontains, hwider, hencloses, p, q, hp, hq, hpv, hpq _ hpv⟩

end AmountPredicate

end EntityQuery
