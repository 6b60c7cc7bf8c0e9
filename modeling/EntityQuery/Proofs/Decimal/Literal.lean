import EntityQuery.Decimal
import Mathlib.Algebra.Order.Round
import Mathlib.Data.Nat.Digits.Defs
import Mathlib.Data.Rat.Floor

/-!
# Decimal literals

A decimal literal is a sign, which may be missing, and a number: digits, or digits with one point
before, between or after them (`Literal.Written`). The parts that a text is split into are the only
ones it may be written from (`Literal.written_iff`). The number that a literal stands for is a
fraction (`Literal.size`), and a conversion has to give the nearest integer to as many times of it
as one becomes at the wanted places (`Literal.rounded`).
-/

namespace EntityQuery.Decimal

/-! ## The grammar -/

/-- The characters are decimal digits. -/
def Digits (s : List Char) : Prop := ∀ c ∈ s, c.isDigit = true

/-- A text is an unsigned number with these digits before and after the point. -/
inductive Unsigned : (whole fraction : List Char) → (text : List Char) → Prop
  /-- Digits without a point. -/
  | plain {whole : List Char} (digits : Digits whole) (nonempty : whole ≠ []) :
      Unsigned whole [] whole
  /-- Digits and a point. There may be none on one of its sides. -/
  | pointed {whole fraction : List Char} (digits : Digits (whole ++ fraction))
      (nonempty : whole ++ fraction ≠ []) : Unsigned whole fraction (whole ++ '.' :: fraction)

/-- A text is a decimal number with these parts. -/
inductive Literal.Written : Literal → (text : List Char) → Prop
  /-- Without a sign. -/
  | bare {whole fraction text : List Char} (h : Unsigned whole fraction text) :
      Written ⟨false, whole, fraction⟩ text
  /-- With a plus before it. -/
  | plus {whole fraction text : List Char} (h : Unsigned whole fraction text) :
      Written ⟨false, whole, fraction⟩ ('+' :: text)
  /-- With a minus before it. -/
  | minus {whole fraction text : List Char} (h : Unsigned whole fraction text) :
      Written ⟨true, whole, fraction⟩ ('-' :: text)

/-- Digits behind digits are digits. -/
theorem Digits.append {s t : List Char} (hs : Digits s) (ht : Digits t) : Digits (s ++ t) :=
  fun c hc => (List.mem_append.mp hc).elim (hs c) (ht c)

/-- What stands in front among digits are digits. -/
theorem Digits.left {s t : List Char} (h : Digits (s ++ t)) : Digits s :=
  fun c hc => h c (List.mem_append_left t hc)

/-- What stands behind among digits are digits. -/
theorem Digits.right {s t : List Char} (h : Digits (s ++ t)) : Digits t :=
  fun c hc => h c (List.mem_append_right s hc)

/-- A text consists of digits when its first character is one and the rest consists of them. -/
theorem digits_cons {c : Char} {s : List Char} : Digits (c :: s) ↔ c.isDigit = true ∧ Digits s :=
  List.forall_mem_cons

/-- A digit is not the point. -/
theorem Digits.ne_point {s : List Char} (h : Digits s) : ∀ c ∈ s, (c != '.') = true := by
  intro c hc
  rw [bne_iff_ne]
  rintro rfl
  exact absurd (h _ hc) (by decide)

/-- The parts of a literal make a decimal number when they hold a digit, and digits only. -/
theorem Literal.isDecimal_iff {l : Literal} :
    l.isDecimal = true ↔ Digits (l.whole ++ l.fraction) ∧ l.whole ++ l.fraction ≠ [] := by
  have hdigits : Digits (l.whole ++ l.fraction) ↔ Digits l.whole ∧ Digits l.fraction :=
    ⟨fun h => ⟨h.left, h.right⟩, fun h => h.1.append h.2⟩
  have hne : l.whole ++ l.fraction ≠ [] ↔ ¬(l.whole = [] ∧ l.fraction = []) := by
    rw [Ne, List.append_eq_nil_iff]
  rw [hdigits, hne]
  simp only [isDecimal, Digits, Bool.and_eq_true, Bool.not_eq_true', Bool.and_eq_false_iff,
    List.isEmpty_eq_false_iff, List.all_eq_true, not_and_or]
  exact and_comm

/-- The characters of an unsigned number are digits and the point. -/
theorem Unsigned.digit_or_point {whole fraction s : List Char} (h : Unsigned whole fraction s) :
    ∀ c ∈ s, c.isDigit = true ∨ c = '.' := by
  intro c hc
  cases h with
  | plain hdigits => exact .inl (hdigits c hc)
  | pointed hdigits =>
    rcases List.mem_append.mp hc with hwhole | hrest
    · exact .inl (hdigits.left c hwhole)
    · rcases List.mem_cons.mp hrest with rfl | hfraction
      · exact .inr rfl
      · exact .inl (hdigits.right c hfraction)

/-! ## The parts of a text -/

/-- Digits in front stand before the point. -/
theorem splitPoint_append {digits : List Char} (h : Digits digits) (s : List Char) :
    splitPoint (digits ++ s) = (digits ++ (splitPoint s).1, (splitPoint s).2) := by
  simp only [splitPoint, List.takeWhile_append_of_pos h.ne_point,
    List.dropWhile_append_of_pos h.ne_point]

/-- The point of an unsigned number is found. -/
theorem Unsigned.splitPoint_eq {whole fraction s : List Char} (h : Unsigned whole fraction s) :
    splitPoint s = (whole, fraction) := by
  cases h with
  | plain hdigits =>
    have hsplit := splitPoint_append hdigits []
    rwa [List.append_nil, show splitPoint [] = ([], []) from rfl, List.append_nil] at hsplit
  | pointed hdigits =>
    have hpoint : splitPoint ('.' :: fraction) = ([], fraction) := by simp [splitPoint]
    rw [splitPoint_append hdigits.left, hpoint, List.append_nil]

/-- A text is what stands before its first point, with the point and the rest behind it if there is
a point. -/
theorem splitPoint_cases (s : List Char) :
    splitPoint s = (s, []) ∨ s = (splitPoint s).1 ++ '.' :: (splitPoint s).2 := by
  have hsplit : s.takeWhile (· != '.') ++ s.dropWhile (· != '.') = s :=
    List.takeWhile_append_dropWhile
  cases hrest : s.dropWhile (· != '.') with
  | nil =>
    rw [hrest, List.append_nil] at hsplit
    left
    rw [splitPoint, hrest, hsplit, List.drop_nil]
  | cons c fraction =>
    obtain rfl : c = '.' := by
      have hstop := List.head?_dropWhile_not (· != '.') s
      simpa [hrest] using hstop
    right
    rw [hrest] at hsplit
    rw [splitPoint, hrest, List.drop_one, List.tail_cons, hsplit]

/-- The parts of a text make an unsigned number of it when they hold a digit, and digits only. -/
theorem unsigned_splitPoint {s : List Char}
    (hdigits : Digits ((splitPoint s).1 ++ (splitPoint s).2))
    (hne : (splitPoint s).1 ++ (splitPoint s).2 ≠ []) :
    Unsigned (splitPoint s).1 (splitPoint s).2 s := by
  rcases splitPoint_cases s with hplain | hpointed
  · rw [hplain, List.append_nil] at hdigits hne
    rw [hplain]
    exact .plain hdigits hne
  · have hunsigned := Unsigned.pointed hdigits hne
    rwa [← hpointed] at hunsigned

/-- A text has a minus or a plus taken off its front, or is left as it is. -/
theorem splitSign_cases (s : List Char) :
    (∃ r, s = '-' :: r ∧ splitSign s = (true, r)) ∨
      (∃ r, s = '+' :: r ∧ splitSign s = (false, r)) ∨ splitSign s = (false, s) := by
  unfold splitSign
  split
  · exact .inl ⟨_, rfl, rfl⟩
  · exact .inr (.inl ⟨_, rfl, rfl⟩)
  · exact .inr (.inr rfl)

/-- An unsigned number is not taken for a signed one. -/
theorem Unsigned.splitSign_eq {whole fraction s : List Char} (h : Unsigned whole fraction s) :
    splitSign s = (false, s) := by
  rcases splitSign_cases s with ⟨r, rfl, -⟩ | ⟨r, rfl, -⟩ | hbare
  · exact absurd (h.digit_or_point '-' (by simp)) (by decide)
  · exact absurd (h.digit_or_point '+' (by simp)) (by decide)
  · exact hbare

namespace Literal

/-- The parts of a number that is written out are a decimal number. -/
theorem Written.isDecimal {l : Literal} {s : List Char} (h : l.Written s) : l.isDecimal = true := by
  have hunsigned {negative : Bool} {whole fraction t : List Char}
      (h : Unsigned whole fraction t) : Literal.isDecimal ⟨negative, whole, fraction⟩ = true := by
    rw [isDecimal_iff]
    cases h with
    | plain hdigits hne => exact ⟨by simpa using hdigits, by simpa using hne⟩
    | pointed hdigits hne => exact ⟨hdigits, hne⟩
  cases h with
  | bare h => exact hunsigned h
  | plus h => exact hunsigned h
  | minus h => exact hunsigned h

/-- No character of a number that is written out is blank. -/
theorem Written.not_blank {l : Literal} {s : List Char} (h : l.Written s) :
    ∀ c ∈ s, Text.isBlank c = false := by
  have hunsigned {whole fraction t : List Char} (h : Unsigned whole fraction t) :
      ∀ c ∈ t, Text.isBlank c = false := by
    intro c hc
    rcases h.digit_or_point c hc with hdigit | rfl
    · exact Text.isBlank_of_isDigit hdigit
    · decide
  cases h with
  | bare h => exact hunsigned h
  | plus h => exact List.forall_mem_cons.mpr ⟨by decide, hunsigned h⟩
  | minus h => exact List.forall_mem_cons.mpr ⟨by decide, hunsigned h⟩

/-- The sign of a text is split off before its point is looked for. -/
theorem ofChars_of_splitSign {s r : List Char} {negative : Bool}
    (h : splitSign s = (negative, r)) :
    ofChars s = ⟨negative, (splitPoint r).1, (splitPoint r).2⟩ := by
  simp only [ofChars, h]

/-- A text is split into the parts that it is written from. -/
theorem Written.ofChars_eq {l : Literal} {s : List Char} (h : l.Written s) : ofChars s = l := by
  cases h with
  | bare h => rw [ofChars_of_splitSign h.splitSign_eq, h.splitPoint_eq]
  | @plus _ _ text h =>
    have hsign : splitSign ('+' :: text) = (false, text) := rfl
    rw [ofChars_of_splitSign hsign, h.splitPoint_eq]
  | @minus _ _ text h =>
    have hsign : splitSign ('-' :: text) = (true, text) := rfl
    rw [ofChars_of_splitSign hsign, h.splitPoint_eq]

/-- Nothing is written with an empty text. -/
theorem Written.ne_nil {l : Literal} {s : List Char} (h : l.Written s) : s ≠ [] := by
  rintro rfl
  have hdecimal := h.isDecimal
  rw [← h.ofChars_eq] at hdecimal
  exact absurd hdecimal (by decide)

/-- A text whose parts are a decimal number is written from them. -/
theorem written_ofChars {s : List Char} (h : (ofChars s).isDecimal = true) :
    (ofChars s).Written s := by
  rcases splitSign_cases s with ⟨r, rfl, hsign⟩ | ⟨r, rfl, hsign⟩ | hsign <;>
    rw [ofChars_of_splitSign hsign] at h ⊢ <;>
    obtain ⟨hdigits, hne⟩ := isDecimal_iff.mp h
  · exact .minus (unsigned_splitPoint hdigits hne)
  · exact .plus (unsigned_splitPoint hdigits hne)
  · exact .bare (unsigned_splitPoint hdigits hne)

/-- A text is written from the parts it is split into, and from no others. -/
theorem written_iff {l : Literal} {s : List Char} :
    l.Written s ↔ ofChars s = l ∧ l.isDecimal = true := by
  constructor
  · exact fun h => ⟨h.ofChars_eq, h.isDecimal⟩
  · rintro ⟨rfl, h⟩
    exact written_ofChars h

/-! ## The number -/

/-- The size of a number: all its digits as one integer, divided by ten for each digit that stands
after the point. -/
def size (l : Literal) : ℚ :=
  (Nat.ofDigits 10 ((l.whole ++ l.fraction).reverse.map digitValue) : ℕ) / 10 ^ l.fraction.length

/-- The integer nearest to the number at `places` places. Halves are rounded away from zero. -/
def rounded (l : Literal) (places : ℕ) : ℤ :=
  if l.negative then -round (l.size * 10 ^ places) else round (l.size * 10 ^ places)

end Literal

end EntityQuery.Decimal
