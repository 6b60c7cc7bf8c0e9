import EntityQuery.Proofs.Decimal.Conversion

/-!
# Fixed-point values written and read back

The literal of a value is a decimal literal (`Literal.written_toText`) with as many digits after the
point as there are places, so that nothing is left to round: its nearest integer is the value
(`Literal.rounded_ofFixed`). It is read back unless it is refused for its whole part. At one place
or more no signed word has too large a whole part, and at none only the smallest one has
(`ofText_toText_iff`).
-/

namespace EntityQuery.Decimal

/-! ## The digits of a number -/

/-- Decimal digits are digits. -/
theorem digits_toDigits (n : ℕ) : Digits (Nat.toDigits 10 n) :=
  fun _ => Nat.isDigit_of_mem_toDigits (by decide) (by decide)

/-- Zeros in front do not change the value of digits. -/
theorem digitsValue_leftpad (n : ℕ) (digits : List Char) :
    digitsValue (digits.leftpad n '0') = digitsValue digits := by
  have hzeros (k : ℕ) : digitsValue (List.replicate k '0') = 0 := by
    induction k with
    | zero => rfl
    | succ k ih => rw [List.replicate_succ', digitsValue_concat, ih]; rfl
  rw [List.leftpad, digitsValue_append, hzeros, Nat.zero_mul, Nat.zero_add]

/-- Digits stay digits behind zeros. -/
theorem Digits.leftpad {digits : List Char} (h : Digits digits) (n : ℕ) :
    Digits (digits.leftpad n '0') := by
  refine Digits.append (fun c hc => ?_) h
  rw [List.eq_of_mem_replicate hc]
  decide

/-! ## The literal of a value -/

namespace Literal

/-- The parts of the literal of a value. -/
def ofFixed (value : ℤ) (places : ℕ) : Literal where
  negative := decide (value < 0)
  whole := Nat.toDigits 10 (value.natAbs / scale places)
  fraction :=
    if places = 0 then []
    else (Nat.toDigits 10 (value.natAbs % scale places)).leftpad places '0'

/-- The sign that is written before a value makes a literal of an unsigned number. -/
theorem written_sign {whole fraction s : List Char} (h : Unsigned whole fraction s) (value : ℤ) :
    Written ⟨decide (value < 0), whole, fraction⟩
      ((if value < 0 then "-" else "").toList ++ s) := by
  by_cases hneg : value < 0
  · rw [if_pos hneg, decide_eq_true hneg]
    exact .minus h
  · rw [if_neg hneg, decide_eq_false hneg]
    exact .bare h

/-- What is written for a value is a literal of its parts. -/
theorem written_toText (value : ℤ) (places : ℕ) :
    (ofFixed value places).Written (toText value places).toList := by
  by_cases hp : places = 0
  · have htext : (toString value).toList =
        (if value < 0 then "-" else "").toList ++ Nat.toDigits 10 value.natAbs := by
      rw [Int.toString_eq_repr, Int.repr_eq_if]
      rcases lt_or_ge value 0 with hneg | hpos
      · have hsize : (-value).toNat = value.natAbs := by omega
        rw [if_pos hneg, if_neg (not_le.mpr hneg), String.toList_append, Nat.toList_repr, hsize]
      · have hsize : value.toNat = value.natAbs := by omega
        rw [if_neg (not_lt.mpr hpos), if_pos hpos, Nat.toList_repr, hsize]
        rfl
    have hwhole : value.natAbs / scale places = value.natAbs := by
      rw [hp, scale, Nat.div_one]
    rw [toText, ofFixed, if_pos hp, if_pos hp, htext, hwhole]
    exact written_sign (.plain (digits_toDigits _) Nat.toDigits_ne_nil) value
  · have htext (sign : String) (whole : ℕ) (fraction : List Char) :
        (sign ++ toString whole ++ "." ++ String.ofList fraction).toList =
          sign.toList ++ (Nat.toDigits 10 whole ++ '.' :: fraction) := by
      simp [Nat.toString_eq_repr, Nat.toList_repr]
    rw [toText, ofFixed, if_neg hp, if_neg hp, htext]
    refine written_sign (.pointed ?_ ?_) value
    · exact (digits_toDigits _).append ((digits_toDigits _).leftpad places)
    · exact fun h => Nat.toDigits_ne_nil (List.append_eq_nil_iff.mp h).1

/-- A literal of a value has as many digits after the point as there are places. -/
theorem length_fraction_ofFixed (value : ℤ) (places : ℕ) :
    (ofFixed value places).fraction.length = places := by
  unfold ofFixed
  split_ifs with hp
  · exact hp.symm
  · have hlength : (Nat.toDigits 10 (value.natAbs % scale places)).length ≤ places := by
      refine Nat.toDigits_length 10 _ _ (by omega) ?_
      rw [scale_eq_pow]
      exact Nat.mod_lt _ (by positivity)
    rw [List.length_leftpad]
    omega

/-- The whole part of a value is its size without the places. -/
theorem digitsValue_whole_ofFixed (value : ℤ) (places : ℕ) :
    digitsValue (ofFixed value places).whole = value.natAbs / scale places :=
  digitsValue_toDigits _

/-- The digits of a value are those of its size. -/
theorem digitsValue_ofFixed (value : ℤ) (places : ℕ) :
    digitsValue ((ofFixed value places).whole ++ (ofFixed value places).fraction)
      = value.natAbs := by
  have hfraction : digitsValue (ofFixed value places).fraction = value.natAbs % scale places := by
    unfold ofFixed
    split_ifs with hp
    · rw [hp, scale, Nat.mod_one]
      rfl
    · rw [digitsValue_leftpad, digitsValue_toDigits]
  rw [digitsValue_append, length_fraction_ofFixed, hfraction, digitsValue_whole_ofFixed]
  exact Nat.div_add_mod' _ _

/-- The literal of a value is rounded to it. -/
theorem rounded_ofFixed (value : ℤ) (places : ℕ) :
    (ofFixed value places).rounded places = value := by
  -- All digits are the size, and as many of them stand after the point as there are places.
  have hsize : (ofFixed value places).size * 10 ^ places = value.natAbs := by
    rw [size_eq, digitsValue_ofFixed, length_fraction_ofFixed]
    exact div_mul_cancel₀ _ (by positivity)
  rw [rounded, hsize, round_natCast]
  unfold ofFixed
  simp only [decide_eq_true_eq]
  split_ifs <;> omega

/-- The whole part of a value that is a signed word is one, too, but for the smallest one when there
are no places. -/
theorem whole_ofFixed_gt_iff {value : ℤ} (h : Signed.InRange value) (places : ℕ) :
    Signed.max < (digitsValue (ofFixed value places).whole : ℤ) ↔
      value = Signed.min ∧ places = 0 := by
  obtain ⟨hmin, hmax⟩ := h
  unfold Signed.min Signed.max at *
  rw [digitsValue_whole_ofFixed]
  cases places with
  | zero =>
    rw [scale, Nat.div_one]
    omega
  | succ places =>
    -- One place is enough: the whole part is at most a tenth of the size.
    have hle : value.natAbs / scale (places + 1) ≤ value.natAbs / 10 :=
      Nat.div_le_div_left (Nat.le_mul_of_pos_right 10 (scale_pos places)) (by decide)
    omega

end Literal

/-- The literal of a value is not changed by trimming. -/
theorem trim_toText (value : ℤ) (places : ℕ) :
    Text.trim (toText value places).toList = (toText value places).toList := by
  have hblank := (Literal.written_toText value places).not_blank
  exact Text.trim_of_not_blank (fun c hc => hblank c (List.mem_of_mem_head? hc))
    (fun c hc => hblank c (List.mem_of_mem_getLast? hc))

/-- The literal of a fixed-point value is read back, unless there are no places and the value is the
smallest signed word. -/
theorem ofText_toText_iff {value : ℤ} {places : ℕ} (h : Signed.InRange value)
    (hp : places ≤ maxPlaces) :
    ofText (toText value places) places = .ok value ↔ ¬(value = Signed.min ∧ places = 0) := by
  have hwritten :
      (Literal.ofFixed value places).Written (Text.trim (toText value places).toList) := by
    rw [trim_toText]
    exact Literal.written_toText value places
  -- The literal is rounded to the value, which is in range: only its whole part may be refused.
  rw [ofText_of_written hp hwritten,
    Literal.convert_eq hwritten.isDecimal hp, Literal.rounded_ofFixed,
    ← Literal.whole_ofFixed_gt_iff h places]
  split_ifs with hlarge
  · simp [hlarge, Except.mapError]
  · simp [hlarge, Except.mapError, narrow, h]

/-- The smallest signed word is read back at two places. -/
theorem ofText_toText_iff_min :
    Signed.InRange Signed.min ∧ 2 ≤ maxPlaces ∧
      ofText (toText Signed.min 2) 2 = .ok Signed.min := by
  have hin : Signed.InRange Signed.min := by decide
  have hp : 2 ≤ maxPlaces := by decide
  exact ⟨hin, hp, (ofText_toText_iff hin hp).mpr (by decide)⟩

/-- Without places, the literal of the smallest signed word is refused. -/
theorem ofText_toText_smallest :
    Signed.InRange Signed.min ∧ 0 ≤ maxPlaces ∧ toText Signed.min 0 = "-9223372036854775808" ∧
      ofText (toText Signed.min 0) 0 = .error (.overflow "-9223372036854775808") :=
  ⟨by decide, by decide, by decide, by decide⟩

end EntityQuery.Decimal
