import EntityQuery.Proofs.Decimal.Literal
import Mathlib.Tactic.FieldSimp
import Mathlib.Tactic.Linarith
import Mathlib.Tactic.Positivity
import Mathlib.Tactic.Ring

/-!
# Conversion of decimal literals

Digits are read one after the other, and what has been read is at any time the value of the digits
so far: a digit more is one step of it (`push_eq`), which keeps the words of the double width as
long as the value times what is still to come is small enough (`Fits`). A whole part is read to its
value or refused (`readWhole_eq`), and a fraction is read to the nearest integer
(`readFraction_eq`). From both comes what a literal is converted to (`Literal.convert_eq`), and that
the conversion is exact (`ofText_exact`).
-/

namespace EntityQuery.Decimal

/-! ## Values of digits -/

/-- What one becomes is a power of ten. -/
theorem scale_eq_pow (places : ℕ) : scale places = 10 ^ places := by
  induction places with
  | zero => rfl
  | succ places ih => rw [scale, ih, pow_succ']

/-- The value of digits, by the last of them. -/
theorem digitsValue_concat (digits : List Char) (c : Char) :
    digitsValue (digits ++ [c]) = 10 * digitsValue digits + digitValue c := by
  simp [digitsValue]

/-- The value of digits is that of their places. -/
theorem digitsValue_eq_ofDigits (digits : List Char) :
    digitsValue digits = Nat.ofDigits 10 (digits.reverse.map digitValue) := by
  induction digits using List.reverseRecOn with
  | nil => rfl
  | append_singleton digits c ih =>
    rw [digitsValue_concat, ih, List.reverse_append, List.reverse_singleton, List.singleton_append,
      List.map_cons, Nat.ofDigits_cons]
    simp [Nat.add_comm]

/-- A digit is worth at most nine. -/
theorem digitValue_le {c : Char} (h : c.isDigit = true) : digitValue c ≤ 9 := by
  have hnine : c.toNat ≤ '9'.toNat := by
    simp only [Char.isDigit, Bool.and_eq_true, decide_eq_true_eq] at h
    exact UInt32.le_iff_toNat_le.mp h.2
  exact Nat.sub_le_sub_right hnine _

/-- Digits are worth less than a one with a zero for each of them. -/
theorem digitsValue_lt {digits : List Char} (h : Digits digits) :
    digitsValue digits < 10 ^ digits.length := by
  induction digits using List.reverseRecOn with
  | nil => exact Nat.one_pos
  | append_singleton digits c ih =>
    have hlt := ih h.left
    have hc := digitValue_le (h.right c (by simp))
    rw [digitsValue_concat, List.length_append, List.length_singleton, pow_succ]
    omega

/-- More digits never have a smaller value. -/
theorem digitsValue_le_append (seen rest : List Char) :
    digitsValue seen ≤ digitsValue (seen ++ rest) := by
  rw [digitsValue_append, scale_eq_pow]
  exact (Nat.le_mul_of_pos_right _ (by positivity)).trans (Nat.le_add_right _ _)

/-! ## The whole part -/

/-- A natural number that is small enough is a word of the double width. -/
theorem wide_natCast {n : ℕ} (h : (n : ℤ) ≤ Wide.max) : wide n = .ok (n : ℤ) := by
  have hmin : Wide.min ≤ (n : ℤ) := le_trans (by decide) (Int.natCast_nonneg n)
  exact if_pos ⟨hmin, h⟩

/-- A digit more is read into the value of all digits, if that is a word of the double width. -/
theorem push_digitsValue {seen : List Char} {c : Char}
    (h : (digitsValue (seen ++ [c]) : ℤ) ≤ Wide.max) :
    push (digitsValue seen) (digitValue c) = .ok (digitsValue (seen ++ [c]) : ℤ) := by
  have hconcat : (digitsValue (seen ++ [c]) : ℤ) = (digitsValue seen * 10 : ℕ) + digitValue c := by
    rw [digitsValue_concat]
    push_cast
    ring
  have hshifted : wide ((digitsValue seen : ℤ) * 10) = .ok ((digitsValue seen * 10 : ℕ) : ℤ) := by
    rw [← wide_natCast (by omega)]
    push_cast
    rfl
  calc push (digitsValue seen) (digitValue c)
      = wide ((digitsValue seen * 10 : ℕ) + digitValue c) := by rw [push, hshifted]; rfl
    _ = .ok (digitsValue (seen ++ [c]) : ℤ) := by rw [← hconcat, wide_natCast h]

/-- A whole part is read to its value, and refused when that is no signed word. -/
theorem readWhole_eq {seen rest : List Char} (hrest : Digits rest)
    (hseen : (digitsValue seen : ℤ) ≤ Signed.max) :
    readWhole (digitsValue seen) rest =
      if Signed.max < (digitsValue (seen ++ rest) : ℤ) then .error .range
      else .ok (digitsValue (seen ++ rest) : ℤ) := by
  induction rest generalizing seen with
  | nil =>
    rw [List.append_nil, if_neg (Int.not_lt.mpr hseen)]
    rfl
  | cons c rest ih =>
    obtain ⟨hc, hdigits⟩ := digits_cons.mp hrest
    have hpush : push (digitsValue seen) (digitValue c) = .ok (digitsValue (seen ++ [c]) : ℤ) := by
      have hnine := digitValue_le hc
      apply push_digitsValue
      rw [digitsValue_concat]
      unfold Signed.max at hseen
      unfold Wide.max
      omega
    have hrun : readWhole (digitsValue seen) (c :: rest) =
        if Signed.max < (digitsValue (seen ++ [c]) : ℤ) then .error .range
        else readWhole (digitsValue (seen ++ [c])) rest := by
      rw [readWhole, hpush]
      rfl
    rw [hrun, List.append_cons seen c rest]
    by_cases hlarge : Signed.max < (digitsValue (seen ++ [c]) : ℤ)
    · -- The digits that are left make the number no smaller.
      have hmono := digitsValue_le_append (seen ++ [c]) rest
      rw [if_pos hlarge, if_pos (by omega)]
    · rw [if_neg hlarge, ih hdigits (Int.not_lt.mp hlarge)]

/-! ## The fraction -/

namespace Literal

/-- The literal with its point one place to the right, where a zero stands in for a digit that is
missing. -/
def shift (l : Literal) : Literal :=
  match l.fraction with
  | [] => { l with whole := l.whole ++ ['0'] }
  | c :: rest => { l with whole := l.whole ++ [c], fraction := rest }

/-- The size of a number, by the value of all its digits. -/
theorem size_eq (l : Literal) :
    l.size = digitsValue (l.whole ++ l.fraction) / 10 ^ l.fraction.length := by
  rw [size, digitsValue_eq_ofDigits]

/-- The size of a number is that of its whole part and a fraction. -/
theorem size_eq_add (l : Literal) :
    l.size = digitsValue l.whole + digitsValue l.fraction / 10 ^ l.fraction.length := by
  rw [size_eq, digitsValue_append, scale_eq_pow]
  push_cast
  field_simp

/-- A number is at least its whole part. -/
theorem whole_le_size (l : Literal) : digitsValue l.whole ≤ l.size := by
  rw [size_eq_add]
  exact le_add_of_nonneg_right (by positivity)

/-- A number is smaller than one more than its whole part. -/
theorem size_lt {l : Literal} (h : Digits l.fraction) : l.size < digitsValue l.whole + 1 := by
  have hfraction : (digitsValue l.fraction : ℚ) / 10 ^ l.fraction.length < 1 := by
    rw [div_lt_one (by positivity)]
    exact_mod_cast digitsValue_lt h
  rw [size_eq_add]
  linarith

/-- With its point one place to the right, a number is ten times as large. -/
theorem size_shift (l : Literal) : l.shift.size = 10 * l.size := by
  obtain ⟨negative, whole, fraction⟩ := l
  cases fraction with
  | nil =>
    have hzero : digitValue '0' = 0 := rfl
    simp [shift, size_eq, digitsValue_concat, hzero]
  | cons c rest =>
    simp only [shift, size_eq, List.append_assoc, List.singleton_append, List.length_cons]
    rw [pow_succ]
    field_simp

/-- The digits of a number may be read for `places` more places in words of the double width. -/
structure Fits (l : Literal) (places : ℕ) : Prop where
  /-- What is left to read are digits. -/
  digits : Digits l.fraction
  /-- Whatever they are, the number stays in range, also when one is added. -/
  le : ((digitsValue l.whole + 1) * 10 ^ places : ℤ) ≤ Wide.max

variable {l : Literal} {places : ℕ}

/-- One more is still a word of the double width. -/
theorem Fits.succ_le (h : l.Fits places) : (digitsValue l.whole : ℤ) + 1 ≤ Wide.max :=
  le_trans (le_mul_of_one_le_right (by positivity) (one_le_pow₀ (by norm_num))) h.le

/-- With the point one place to the right, there is one place less to read. -/
theorem Fits.shift (h : l.Fits (places + 1)) : l.shift.Fits places := by
  obtain ⟨hdigits, hle⟩ := h
  obtain ⟨negative, whole, fraction⟩ := l
  have hstep {c : Char} (hc : digitValue c ≤ 9) :
      ((digitsValue (whole ++ [c]) + 1) * 10 ^ places : ℤ) ≤ Wide.max := by
    have hten : (digitsValue (whole ++ [c]) + 1 : ℤ) ≤ (digitsValue whole + 1) * 10 := by
      rw [digitsValue_concat]
      push_cast
      omega
    calc ((digitsValue (whole ++ [c]) + 1) * 10 ^ places : ℤ)
        ≤ (digitsValue whole + 1) * 10 * 10 ^ places :=
          mul_le_mul_of_nonneg_right hten (by positivity)
      _ = (digitsValue whole + 1) * 10 ^ (places + 1) := by ring
      _ ≤ Wide.max := hle
  cases fraction with
  | nil => exact ⟨hdigits, hstep (by decide)⟩
  | cons c rest =>
    obtain ⟨hc, hrest⟩ := digits_cons.mp hdigits
    exact ⟨hrest, hstep (digitValue_le hc)⟩

/-- A place is read by moving the point over it. -/
theorem readFraction_succ (h : l.Fits (places + 1)) :
    readFraction (digitsValue l.whole) l.fraction (places + 1) =
      readFraction (digitsValue l.shift.whole) l.shift.fraction places := by
  have hle := h.shift.succ_le
  obtain ⟨negative, whole, fraction⟩ := l
  cases fraction with
  | nil =>
    -- A missing digit is read as a zero.
    have hpush :
        push (digitsValue whole) (digitValue '0') = .ok (digitsValue (whole ++ ['0']) : ℤ) :=
      push_digitsValue ((Int.le_add_one le_rfl).trans hle)
    change (push (digitsValue whole) (digitValue '0') >>= fun n => readFraction n [] places) = _
    rw [hpush]
    rfl
  | cons c rest =>
    have hpush : push (digitsValue whole) (digitValue c) = .ok (digitsValue (whole ++ [c]) : ℤ) :=
      push_digitsValue ((Int.le_add_one le_rfl).trans hle)
    rw [readFraction, hpush]
    rfl

/-- The nearest integer is told by the first digit after the point. -/
theorem round_size_cons {negative : Bool} {whole rest : List Char} {c : Char}
    (hc : c.isDigit = true) (hrest : Digits rest) :
    round (size ⟨negative, whole, c :: rest⟩) =
      if 5 ≤ digitValue c then (digitsValue whole : ℤ) + 1 else digitsValue whole := by
  -- The digits behind the first one are the fraction of the number after one shift.
  have hshift : size ⟨negative, whole ++ [c], rest⟩ = 10 * size ⟨negative, whole, c :: rest⟩ :=
    size_shift ⟨negative, whole, c :: rest⟩
  have hle := whole_le_size ⟨negative, whole ++ [c], rest⟩
  have hlt : size ⟨negative, whole ++ [c], rest⟩ < _ := size_lt hrest
  simp only [hshift, digitsValue_concat] at hle hlt
  push_cast at hle hlt
  have hc9 : (digitValue c : ℚ) ≤ 9 := by exact_mod_cast digitValue_le hc
  split_ifs with hup
  · have hup' : (5 : ℚ) ≤ digitValue c := by exact_mod_cast hup
    rw [round_eq_iff]
    push_cast
    constructor <;> linarith
  · have hdown : (digitValue c : ℚ) ≤ 4 := by exact_mod_cast Nat.lt_succ_iff.mp (not_le.mp hup)
    have hc0 : (0 : ℚ) ≤ digitValue c := by positivity
    rw [round_eq_iff]
    push_cast
    constructor <;> linarith

/-- After the last place the number is rounded. -/
theorem readFraction_zero (h : l.Fits 0) :
    readFraction (digitsValue l.whole) l.fraction 0 = .ok (round l.size) := by
  have hle := h.succ_le
  obtain ⟨negative, whole, fraction⟩ := l
  cases fraction with
  | nil => simp [readFraction, size_eq]
  | cons c rest =>
    obtain ⟨hc, hrest⟩ := digits_cons.mp h.digits
    rw [round_size_cons hc hrest, readFraction]
    split_ifs with hup
    · exact_mod_cast wide_natCast (n := digitsValue whole + 1) (by exact_mod_cast hle)
    · rfl

/-- A fraction is read to the integer nearest to the number at its places. -/
theorem readFraction_eq (h : l.Fits places) :
    readFraction (digitsValue l.whole) l.fraction places = .ok (round (l.size * 10 ^ places)) := by
  induction places generalizing l with
  | zero => rw [readFraction_zero h, pow_zero, mul_one]
  | succ places ih =>
    have hsize : l.shift.size * 10 ^ places = l.size * 10 ^ (places + 1) := by
      rw [size_shift]
      ring
    rw [readFraction_succ h, ih h.shift, hsize]

/-! ## Literals -/

/-- The whole part of a conversion that goes on is small enough for all places. -/
theorem fits_of_whole (hl : l.isDecimal = true) (hwhole : (digitsValue l.whole : ℤ) ≤ Signed.max)
    (hp : places ≤ maxPlaces) : l.Fits places := by
  refine ⟨(isDecimal_iff.mp hl).1.right, ?_⟩
  have hpow : (10 : ℤ) ^ places ≤ 10 ^ maxPlaces := pow_le_pow_right₀ (by norm_num) hp
  calc ((digitsValue l.whole + 1) * 10 ^ places : ℤ)
      ≤ (Signed.max + 1) * 10 ^ maxPlaces :=
        mul_le_mul (by omega) hpow (by positivity) (by decide)
    _ ≤ Wide.max := by decide

/-- The size of a literal is rounded to no negative number. -/
theorem round_nonneg (l : Literal) (places : ℕ) : 0 ≤ round (l.size * 10 ^ places) := by
  have hsize : 0 ≤ l.size := le_trans (by positivity) l.whole_le_size
  rw [round_eq]
  positivity

/-- The size of what a literal is rounded to. -/
theorem abs_rounded (l : Literal) (places : ℕ) :
    |l.rounded places| = round (l.size * 10 ^ places) := by
  have hnonneg := l.round_nonneg places
  unfold rounded
  split_ifs
  · rw [abs_neg, abs_of_nonneg hnonneg]
  · exact abs_of_nonneg hnonneg

/-- What is read in words of the double width is rounded to one. -/
theorem Fits.round_le (h : l.Fits places) : round (l.size * 10 ^ places) ≤ Wide.max := by
  have hlt : l.size * 10 ^ places < Wide.max :=
    calc l.size * 10 ^ places < (digitsValue l.whole + 1) * 10 ^ places :=
          mul_lt_mul_of_pos_right (size_lt h.digits) (by positivity)
      _ ≤ Wide.max := by exact_mod_cast h.le
  have hhalf := round_le_add_half (l.size * 10 ^ places)
  have hcast : (round (l.size * 10 ^ places) : ℚ) < Wide.max + 1 := by linarith
  exact Int.lt_add_one_iff.mp (by exact_mod_cast hcast)

/-- What is read in words of the double width is there with either sign. -/
theorem Fits.withSign_eq (h : l.Fits places) :
    withSign l.negative (round (l.size * 10 ^ places)) = .ok (l.rounded places) := by
  unfold withSign rounded
  split_ifs
  · have hnonneg := l.round_nonneg places
    have hle := h.round_le
    have hin : Wide.InRange (-round (l.size * 10 ^ places)) := by
      unfold Wide.InRange Wide.min
      unfold Wide.max at hle ⊢
      omega
    exact if_pos hin
  · rfl

/-- A literal is refused for its whole part, or converted to what it is rounded to if that is a
signed word. -/
theorem convert_eq (hl : l.isDecimal = true) (hp : places ≤ maxPlaces) :
    l.convert places =
      if Signed.max < (digitsValue l.whole : ℤ) then .error .range
      else narrow (l.rounded places) := by
  have hread : readWhole 0 l.whole =
      if Signed.max < (digitsValue l.whole : ℤ) then .error .range
      else .ok (digitsValue l.whole : ℤ) := by
    have hseen : (digitsValue [] : ℤ) ≤ Signed.max := by decide
    exact readWhole_eq (isDecimal_iff.mp hl).1.left hseen
  rw [convert, hread]
  by_cases hlarge : Signed.max < (digitsValue l.whole : ℤ)
  · rw [if_pos hlarge, if_pos hlarge]
    rfl
  · have hfits := fits_of_whole hl (Int.not_lt.mp hlarge) hp
    rw [if_neg hlarge, if_neg hlarge]
    calc (do
          let size ← readFraction (digitsValue l.whole) l.fraction places
          let value ← withSign l.negative size
          narrow value)
        = (do
          let value ← withSign l.negative (round (l.size * 10 ^ places))
          narrow value) := by
            rw [readFraction_eq hfits]
            rfl
      _ = narrow (l.rounded places) := by
            rw [hfits.withSign_eq]
            rfl

/-- No operation of a conversion leaves the words of the double width. -/
theorem convert_ne_width (hl : l.isDecimal = true) (hp : places ≤ maxPlaces) :
    l.convert places ≠ .error .width := by
  rw [convert_eq hl hp]
  unfold narrow
  split_ifs <;> simp

/-- A literal with too large a whole part is rounded to no signed word. -/
theorem le_abs_rounded (h : Signed.max < (digitsValue l.whole : ℤ)) (places : ℕ) :
    2 ^ 63 ≤ |l.rounded places| := by
  have hwhole : (2 : ℚ) ^ 63 ≤ digitsValue l.whole := by
    unfold Signed.max at h
    exact_mod_cast (by omega : 2 ^ 63 ≤ digitsValue l.whole)
  have hscaled : (2 : ℚ) ^ 63 ≤ l.size * 10 ^ places :=
    calc (2 : ℚ) ^ 63 ≤ l.size := hwhole.trans l.whole_le_size
      _ ≤ l.size * 10 ^ places :=
          le_mul_of_one_le_right ((by positivity : (0 : ℚ) ≤ _).trans l.whole_le_size)
            (one_le_pow₀ (by norm_num))
  rw [abs_rounded, round_eq, Int.le_floor]
  push_cast
  linarith

end Literal

/-! ## Texts -/

variable {text : String} {places : ℕ}

/-- A text that is no literal is malformed, unless it is blank. -/
theorem ofText_of_not_written (hp : places ≤ maxPlaces) (ht : Text.trim text.toList ≠ [])
    (h : ¬∃ l : Literal, l.Written (Text.trim text.toList)) :
    ofText text places = .error (.malformed text) := by
  have hdecimal : (Literal.ofChars (Text.trim text.toList)).isDecimal = false := by
    rw [← Bool.not_eq_true]
    exact fun hdecimal => h ⟨_, Literal.written_ofChars hdecimal⟩
  simp [ofText, ht, hdecimal, Nat.not_lt.mpr hp]

/-- A literal has the value it is converted to. -/
theorem ofText_of_written (hp : places ≤ maxPlaces) {l : Literal}
    (h : l.Written (Text.trim text.toList)) :
    ofText text places = (l.convert places).mapError fun _ => .overflow text := by
  have ht := h.ne_nil
  obtain ⟨rfl, hdecimal⟩ := Literal.written_iff.mp h
  simp [ofText, ht, hdecimal, Nat.not_lt.mpr hp]

/-- A literal has the value it is rounded to, or is refused because that is too large. -/
theorem ofText_of_written_cases (hp : places ≤ maxPlaces) {l : Literal}
    (h : l.Written (Text.trim text.toList)) :
    ofText text places = .ok (l.rounded places) ∨
      ofText text places = .error (.overflow text) ∧ 2 ^ 63 ≤ |l.rounded places| := by
  rw [ofText_of_written hp h, Literal.convert_eq h.isDecimal hp]
  by_cases hlarge : Signed.max < (digitsValue l.whole : ℤ)
  · rw [if_pos hlarge]
    exact .inr ⟨rfl, Literal.le_abs_rounded hlarge places⟩
  · rw [if_neg hlarge, narrow]
    by_cases hin : Signed.InRange (l.rounded places)
    · rw [if_pos hin]
      exact .inl rfl
    · rw [if_neg hin]
      refine .inr ⟨rfl, ?_⟩
      rw [le_abs]
      unfold Signed.InRange Signed.min Signed.max at hin
      omega

/-- The conversion of a text is exact. A text is empty when nothing is left of it once it is
trimmed, and malformed when something else than a decimal literal is left. A literal has the value
of the nearest integer or is refused, and only when that is too large; and no operation of the
conversion leaves the words of the double width. -/
theorem ofText_exact (hp : places ≤ maxPlaces) (text : String) :
    let t := Text.trim text.toList
    (ofText text places = .error .empty ↔ t = []) ∧
    (ofText text places = .error (.malformed text) ↔ t ≠ [] ∧ ¬∃ l : Literal, l.Written t) ∧
    ∀ l : Literal, l.Written t →
      (|l.rounded places| < 2 ^ 63 → ofText text places = .ok (l.rounded places)) ∧
      (∀ v, ofText text places = .ok v → v = l.rounded places) ∧
      (∀ e, ofText text places = .error e →
        e = .overflow text ∧ 2 ^ 63 ≤ |l.rounded places|) ∧
      l.convert places ≠ .error .width := by
  intro t
  have hblank (ht : t = []) : ofText text places = .error .empty := ofText_of_blank hp ht
  have hmalformed (ht : t ≠ []) (hl : ¬∃ l : Literal, l.Written t) :
      ofText text places = .error (.malformed text) := ofText_of_not_written hp ht hl
  have hliteral (l : Literal) (hl : l.Written t) := ofText_of_written_cases hp hl
  refine ⟨⟨fun h => ?_, hblank⟩, ⟨fun h => ⟨?_, ?_⟩, fun h => hmalformed h.1 h.2⟩, fun l hl => ?_⟩
  · -- The other two outcomes are told from an empty text.
    by_contra ht
    by_cases hl : ∃ l : Literal, l.Written t
    · obtain ⟨l, hl⟩ := hl
      rcases hliteral l hl with hok | ⟨herror, -⟩
      · simp [h] at hok
      · simp [h] at herror
    · simp [hmalformed ht hl] at h
  · intro ht
    simp [hblank ht] at h
  · rintro ⟨l, hl⟩
    rcases hliteral l hl with hok | ⟨herror, -⟩
    · simp [h] at hok
    · simp [h] at herror
  · have hwidth := Literal.convert_ne_width hl.isDecimal hp
    rcases hliteral l hl with hok | ⟨herror, hlarge⟩
    · refine ⟨fun _ => hok, fun v hv => ?_, fun e he => ?_, hwidth⟩
      · simpa [hok] using hv.symm
      · simp [hok] at he
    · refine ⟨fun hsmall => absurd hlarge hsmall.not_ge, fun v hv => ?_, fun e he => ?_, hwidth⟩
      · simp [herror] at hv
      · exact ⟨by simpa [herror] using he.symm, hlarge⟩

/-- A half is rounded away from zero. -/
theorem ofText_exact_half : 2 ≤ maxPlaces ∧ ofText " -1.005" 2 = .ok (-101) := by
  have hp : 2 ≤ maxPlaces := by decide
  let l : Literal := ⟨true, ['1'], ['0', '0', '5']⟩
  have hwritten : l.Written (Text.trim " -1.005".toList) :=
    Literal.written_iff.mpr ⟨by decide, by decide⟩
  have hrounded : l.rounded 2 = -101 := by
    have hsize : l.size * 10 ^ 2 = 100 + 1 / 2 := by
      have hdigits : Nat.ofDigits 10 ((l.whole ++ l.fraction).reverse.map digitValue) = 1005 := rfl
      have hlength : l.fraction.length = 3 := rfl
      rw [Literal.size, hdigits, hlength]
      norm_num
    have hround : round (l.size * 10 ^ 2) = 101 := by
      rw [hsize, round_eq_iff]
      norm_num
    rw [Literal.rounded, hround]
    rfl
  refine ⟨hp, ?_⟩
  rw [← hrounded]
  exact ((ofText_exact hp " -1.005").2.2 l hwritten).1 (by rw [hrounded]; decide)

end EntityQuery.Decimal
