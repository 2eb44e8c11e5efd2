import Mathlib.Tactic.Ring
import ScalarC.Binary.Shortest

/-!
Rounding is exact where it can be: a quotient that is the magnitude of a code is
rounded to that code. The exact expansion of a finite double reads back as it, so
the shortest digits do, on whichever grid the search finds them.
-/

namespace ScalarC

namespace Format

theorem binade_pos (format : Format) : 0 < format.binade := Nat.pow_pos (by decide)

theorem unit_eq (format : Format) : format.unit = 2 ^ format.stepExponent := rfl

theorem roundToEven_mul {denominator : Nat} (positive : 0 < denominator) (quotient : Nat) :
    roundToEven (quotient * denominator) denominator = quotient := by
  simp [roundToEven, positive]

theorem roundToEven_scale {scale : Nat} (positive : 0 < scale) (numerator denominator : Nat) :
    roundToEven (scale * numerator) (scale * denominator) = roundToEven numerator denominator := by
  have twice (rest : Nat) : 2 * (scale * rest) = scale * (2 * rest) := by ring
  simp only [roundToEven, Nat.mul_div_mul_left _ _ positive, Nat.mul_mod_mul_left, twice,
    Nat.mul_lt_mul_left positive]

theorem nearest_scale (format : Format) {scale : Nat} (positive : 0 < scale)
    (numerator denominator : Nat) :
    format.nearest (scale * numerator) (scale * denominator) =
      format.nearest numerator denominator := by
  simp only [nearest, Nat.mul_assoc scale, Nat.mul_div_mul_left _ _ positive,
    roundToEven_scale positive]

/-- The significand of a code and the place of its last bit. Only a significand at the lowest
place may lack the leading bit. -/
theorem steps_eq (format : Format) (code : Nat) :
    ∃ significand shift, format.steps code = significand * 2 ^ shift ∧
      code = shift * format.binade + significand ∧ significand < 2 * format.binade ∧
      (shift ≠ 0 → format.binade ≤ significand) := by
  have fraction : code % format.binade < format.binade := Nat.mod_lt _ format.binade_pos
  have whole := Nat.div_add_mod' code format.binade
  by_cases subnormal : code / format.binade = 0
  · refine ⟨code % format.binade, 0, by simp [steps, subnormal], ?_, by omega, by simp⟩
    rw [subnormal] at whole
    omega
  · obtain ⟨shift, exponent⟩ := Nat.exists_eq_succ_of_ne_zero subnormal
    refine ⟨format.binade + code % format.binade, shift, ?_, ?_, by omega, by simp⟩
    · simp [steps, exponent]
    · rw [exponent, Nat.succ_mul] at whole
      omega

theorem steps_ne_zero {format : Format} {code : Nat} (positive : 0 < code) :
    format.steps code ≠ 0 := by
  obtain ⟨significand, shift, steps, whole, _, leading⟩ := format.steps_eq code
  rw [steps]
  have present : significand ≠ 0 := by
    rintro rfl
    by_cases lowest : shift = 0
    · simp [lowest] at whole
      omega
    · exact absurd (leading lowest) (Nat.not_le.mpr format.binade_pos)
  exact Nat.mul_ne_zero present (Nat.pow_pos (by decide)).ne'

theorem log2_shifted {format : Format} {significand shift : Nat}
    (small : significand < 2 * format.binade) (leading : shift ≠ 0 → format.binade ≤ significand) :
    (significand * 2 ^ shift).log2 - format.fractionBits = shift := by
  have binade : format.binade = 2 ^ format.fractionBits := rfl
  have power : 0 < 2 ^ shift := Nat.pow_pos (by decide)
  by_cases lowest : shift = 0
  · subst lowest
    by_cases zero : significand = 0
    · simp [zero]
    · have bound : significand.log2 < format.fractionBits + 1 :=
        (Nat.log2_lt zero).mpr (by rw [Nat.pow_succ]; omega)
      simp only [Nat.pow_zero, Nat.mul_one]
      omega
  · have significant := leading lowest
    have positive := format.binade_pos
    have present : significand * 2 ^ shift ≠ 0 := Nat.mul_ne_zero (by omega) power.ne'
    have place : (significand * 2 ^ shift).log2 = format.fractionBits + shift := by
      rw [Nat.log2_eq_iff present]
      constructor
      · rw [Nat.pow_add, ← binade]
        exact Nat.mul_le_mul_right _ significant
      · calc significand * 2 ^ shift < 2 * format.binade * 2 ^ shift :=
              Nat.mul_lt_mul_of_pos_right small power
          _ = 2 ^ (format.fractionBits + shift + 1) := by rw [binade]; ring
    omega

theorem nearest_eq_code {format : Format} {code numerator denominator : Nat}
    (positive : 0 < denominator) (finite : code < format.infinity)
    (value : numerator * format.unit = format.steps code * denominator) :
    format.nearest numerator denominator = code := by
  obtain ⟨significand, shift, steps, whole, small, leading⟩ := format.steps_eq code
  have scaled : 0 < denominator * 2 ^ shift := Nat.mul_pos positive (Nat.pow_pos (by decide))
  have regrouped : significand * 2 ^ shift * denominator =
      significand * (denominator * 2 ^ shift) := by ring
  have power : Nat.pow 2 shift = 2 ^ shift := rfl
  simp only [nearest, value, Nat.mul_div_cancel _ positive]
  rw [steps, log2_shifted small leading, power, regrouped, roundToEven_mul scaled, ← whole]
  exact Nat.min_eq_left (Nat.le_of_lt finite)

end Format

namespace Binary64

/-- Decimals in the range of doubles are rounded from their quotient. -/
theorem ofDecimal_eq_ofRatio {negative : Bool} {decimal : Decimal}
    (present : decimal.coefficient ≠ 0) (small : decimal.exponent < 400)
    (large : -400 ≤ decimal.exponent + decimal.coefficient.log2) :
    ofDecimal negative decimal = ofRatio negative decimal.numerator decimal.denominator := by
  simp [ofDecimal, present, Int.not_le.mpr small, Int.not_lt.mpr large]

theorem ofDecimal_shift {negative : Bool} {coefficient exponent : Nat}
    (present : coefficient ≠ 0) (small : exponent < 400) :
    ofDecimal negative ⟨coefficient * 10 ^ (exponent + 1), -1⟩ =
      ofDecimal negative ⟨coefficient, exponent⟩ := by
  have shifted : coefficient * 10 ^ (exponent + 1) ≠ 0 :=
    Nat.mul_ne_zero present (Nat.pow_pos (by decide)).ne'
  rw [ofDecimal_eq_ofRatio shifted (by simp) (by simp),
    ofDecimal_eq_ofRatio present (by simpa using small) (by simp; omega)]
  have larger : Decimal.numerator ⟨coefficient * 10 ^ (exponent + 1), -1⟩ =
      10 * Decimal.numerator ⟨coefficient, exponent⟩ := by
    simp [Decimal.numerator, Nat.pow_succ]
    ring
  have tenth : Decimal.denominator ⟨coefficient * 10 ^ (exponent + 1), -1⟩ =
      10 * Decimal.denominator ⟨coefficient, exponent⟩ := by
    simp [Decimal.denominator]
  rw [larger, tenth]
  simp [ofRatio, Format.nearest_scale]

theorem le_log2_mul_pow_five {steps : Nat} (present : steps ≠ 0) (places : Nat) :
    2 * places ≤ (steps * 5 ^ places).log2 := by
  have power : 5 ^ places ≠ 0 := (Nat.pow_pos (by decide)).ne'
  rw [Nat.le_log2 (Nat.mul_ne_zero present power)]
  calc 2 ^ (2 * places) = 4 ^ places := by rw [Nat.pow_mul]
    _ ≤ 5 ^ places := Nat.pow_le_pow_left (by decide) places
    _ ≤ steps * 5 ^ places := Nat.le_mul_of_pos_left _ (Nat.pos_of_ne_zero present)

theorem ofDecimal_expansion {steps : Nat} (present : steps ≠ 0) (places : Nat) :
    ofDecimal false ⟨steps * Nat.pow 5 places, -places⟩ =
      ofRatio false (steps * 5 ^ places) (10 ^ places) := by
  have bits := le_log2_mul_pow_five present places
  have power : 5 ^ places ≠ 0 := (Nat.pow_pos (by decide)).ne'
  rw [ofDecimal_eq_ofRatio (Nat.mul_ne_zero present power) (by simp; omega) (by simp; omega)]
  simp [Decimal.numerator, Decimal.denominator]

theorem readsBack_exact {code : Nat} (positive : 0 < code)
    (finite : code < Format.binary64.infinity) : readsBack code (exact code) = true := by
  have present : Format.binary64.steps code ≠ 0 := Format.steps_ne_zero positive
  have value : Format.binary64.steps code * 5 ^ Format.binary64.stepExponent *
      Format.binary64.unit = Format.binary64.steps code * 10 ^ Format.binary64.stepExponent := by
    rw [Format.unit_eq, Nat.mul_assoc, ← Nat.mul_pow]
  have rounded : ofDecimal false (exact code) = ofRatio false
      (Format.binary64.steps code * 5 ^ Format.binary64.stepExponent)
      (10 ^ Format.binary64.stepExponent) := ofDecimal_expansion present _
  have own : (ofDecimal false (exact code)).code = code := by
    rw [rounded]
    exact Format.nearest_eq_code (Nat.pow_pos (by decide)) finite value
  exact decide_eq_true own

theorem onGrid_readsBack {tie : Tie} {code : Nat} {exponent : Int} {decimal : Decimal}
    (found : onGrid tie code exponent = some decimal) : readsBack code decimal = true := by
  simp only [onGrid] at found
  split at found
  · split at found <;> cases found <;> assumption
  · cases found
    assumption
  · cases found
    assumption
  · cases found

theorem search_readsBack {tie : Tie} {code : Nat} (positive : 0 < code)
    (finite : code < Format.binary64.infinity) (exponent : Int) (grids : Nat) :
    readsBack code (search tie code exponent grids) = true := by
  induction grids generalizing exponent with
  | zero => exact readsBack_exact positive finite
  | succ grids ih =>
      unfold search
      cases found : onGrid tie code exponent with
      | none => exact ih (exponent - 1)
      | some decimal => exact onGrid_readsBack found

/-- The digits of a positive finite double read back as it. -/
theorem shortest_readsBack (tie : Tie) {code : Nat} (positive : 0 < code)
    (finite : code < Format.binary64.infinity) : readsBack code (shortest tie code) = true :=
  search_readsBack positive finite _ _

theorem readsBack_range {code : Nat} {decimal : Decimal} (positive : 0 < code)
    (finite : code < Format.binary64.infinity) (back : readsBack code decimal = true) :
    decimal.coefficient ≠ 0 ∧ decimal.exponent < 400 := by
  have back : (ofDecimal false decimal).code = code := by simpa [readsBack] using back
  constructor
  · intro zero
    simp [ofDecimal, zero, Binary64.zero] at back
    omega
  · by_contra large
    by_cases zero : decimal.coefficient = 0
    · simp [ofDecimal, zero, Binary64.zero] at back
      omega
    · simp only [ofDecimal, zero, ↓reduceIte, Int.not_lt.mp large, infinity] at back
      omega

theorem ofDecimal_negative (negative : Bool) (decimal : Decimal) :
    ofDecimal negative decimal = ⟨negative, (ofDecimal false decimal).code,
      (ofDecimal false decimal).code_lt⟩ := by
  unfold ofDecimal
  split
  · rfl
  split
  · rfl
  split <;> rfl

theorem ofDecimal_of_readsBack {value : Binary64} {decimal : Decimal}
    (back : readsBack value.code decimal = true) : ofDecimal value.negative decimal = value := by
  have back : (ofDecimal false decimal).code = value.code := by simpa [readsBack] using back
  rw [ofDecimal_negative]
  cases value
  simp_all

end Binary64

end ScalarC
