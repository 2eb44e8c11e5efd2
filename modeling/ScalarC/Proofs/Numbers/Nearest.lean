import Mathlib.Algebra.Order.Field.Basic
import Mathlib.Tactic.Linarith
import Mathlib.Tactic.Positivity
import ScalarC.Proofs.Numbers.Denotation
import ScalarC.Proofs.Numbers.Exact

/-!
Rounding to nearest, said by distances: no code stands for a closer magnitude, and
where another one stands for an equally close magnitude, the code is even. The
magnitude of infinity is the one that would follow the largest finite one. There is
one such code for a magnitude, and it is the one that is computed, from a quotient
or from a decimal.
-/

namespace ScalarC

namespace Format

def magnitude (format : Format) (code : Nat) : ℚ := format.steps code / format.unit

def distance (format : Format) (value : ℚ) (code : Nat) : ℚ := |value - format.magnitude code|

/-- Rounding to nearest, ties to even. -/
structure IsNearest (format : Format) (value : ℚ) (code : Nat) : Prop where
  bounded : code ≤ format.infinity
  closest : ∀ other ≤ format.infinity, format.distance value code ≤ format.distance value other
  even : ∀ other ≤ format.infinity, other ≠ code →
    format.distance value other = format.distance value code → code % 2 = 0

variable {format : Format}

/-! Codes are ordered like their magnitudes. -/

theorem steps_of_parts {significand shift : Nat} (small : significand ≤ 2 * format.binade)
    (leading : shift ≠ 0 → format.binade ≤ significand) :
    format.steps (shift * format.binade + significand) = significand * 2 ^ shift := by
  have positive := format.binade_pos
  obtain ⟨s, place, steps, whole, bound, lead⟩ :=
    format.steps_eq (shift * format.binade + significand)
  rw [steps]
  rcases Nat.lt_trichotomy place shift with less | rfl | more
  · obtain ⟨extra, rfl⟩ : ∃ extra, shift = place + 1 + extra := ⟨shift - (place + 1), by omega⟩
    have significant := leading (by omega)
    rw [Nat.add_mul, Nat.add_mul] at whole
    omega
  · rw [Nat.add_left_cancel whole]
  · obtain ⟨extra, rfl⟩ : ∃ extra, place = shift + 1 + extra := ⟨place - (shift + 1), by omega⟩
    have significant := lead (by omega)
    rw [Nat.add_mul, Nat.add_mul] at whole
    obtain ⟨rfl, rfl, rfl⟩ : extra = 0 ∧ s = format.binade ∧ significand = 2 * format.binade := by
      rcases Nat.eq_zero_or_pos extra with rfl | present
      · omega
      · have := Nat.mul_le_mul_right format.binade present
        omega
    rw [Nat.add_zero, Nat.pow_succ]
    ring

theorem steps_lt_succ (format : Format) (code : Nat) :
    format.steps code < format.steps (code + 1) := by
  obtain ⟨significand, shift, steps, whole, small, leading⟩ := format.steps_eq code
  have next : format.steps (shift * format.binade + (significand + 1)) =
      (significand + 1) * 2 ^ shift :=
    format.steps_of_parts (by omega) fun present => Nat.le_succ_of_le (leading present)
  rw [steps, whole, Nat.add_assoc, next]
  exact Nat.mul_lt_mul_of_pos_right (Nat.lt_succ_self _) (Nat.pow_pos (by decide))

theorem steps_strictMono (format : Format) : StrictMono format.steps :=
  strictMono_nat_of_lt_succ format.steps_lt_succ

theorem unit_pos (format : Format) : (0 : ℚ) < format.unit :=
  Nat.cast_pos.mpr (Nat.pow_pos (by decide))

theorem magnitude_strictMono (format : Format) : StrictMono format.magnitude := fun _ _ less =>
  div_lt_div_of_pos_right (Nat.cast_lt.mpr (format.steps_strictMono less)) format.unit_pos

theorem magnitude_eq (number : Nat) {code : Nat}
    (steps : format.steps code = number * format.unit) : format.magnitude code = number := by
  rw [magnitude, steps, Nat.cast_mul, mul_div_cancel_right₀ _ format.unit_pos.ne']

theorem magnitude_zero (format : Format) : format.magnitude 0 = 0 := by
  simp [magnitude, steps]

/-! The rounded quotient is the nearest whole number. -/

theorem quotient_split {denominator : Nat} (positive : 0 < denominator) (numerator : Nat) :
    (numerator / denominator : ℚ) =
      (numerator / denominator : Nat) + (numerator % denominator : Nat) / denominator := by
  have size : (denominator : ℚ) ≠ 0 := Nat.cast_ne_zero.mpr positive.ne'
  rw [div_eq_iff size, add_mul, div_mul_cancel₀ _ size]
  exact_mod_cast (Nat.div_add_mod' numerator denominator).symm

theorem part_lt_half {denominator : Nat} (positive : 0 < denominator) (rest : Nat) :
    (rest / denominator : ℚ) < 1 / 2 ↔ 2 * rest < denominator := by
  rw [div_lt_div_iff₀ (Nat.cast_pos.mpr positive) (by norm_num), one_mul, mul_comm]
  exact_mod_cast Iff.rfl

theorem half_lt_part {denominator : Nat} (positive : 0 < denominator) (rest : Nat) :
    1 / 2 < (rest / denominator : ℚ) ↔ denominator < 2 * rest := by
  rw [div_lt_div_iff₀ (by norm_num) (Nat.cast_pos.mpr positive), one_mul, mul_comm]
  exact_mod_cast Iff.rfl

theorem roundToEven_near {denominator : Nat} (positive : 0 < denominator) (numerator : Nat) :
    |(numerator / denominator : ℚ) - roundToEven numerator denominator| ≤ 1 / 2 ∧
      (|(numerator / denominator : ℚ) - roundToEven numerator denominator| = 1 / 2 →
        roundToEven numerator denominator % 2 = 0) := by
  have half_lt := part_lt_half positive (numerator % denominator)
  have lt_half := half_lt_part positive (numerator % denominator)
  rw [quotient_split positive]
  have part_nonneg : (0 : ℚ) ≤ (numerator % denominator : Nat) / denominator := by positivity
  have below : ((numerator % denominator : Nat) / denominator : ℚ) < 1 := by
    rw [div_lt_one (Nat.cast_pos.mpr positive)]
    exact_mod_cast Nat.mod_lt _ positive
  generalize ((numerator % denominator : Nat) / denominator : ℚ) = part at *
  simp only [roundToEven]
  split
  case isTrue low =>
    have low := half_lt.mpr low
    rw [add_sub_cancel_left, abs_of_nonneg part_nonneg]
    exact ⟨low.le, fun tie => absurd tie low.ne⟩
  case isFalse notLow =>
    split
    case isTrue high =>
      have high := lt_half.mpr high
      have rest : |((numerator / denominator : Nat) : ℚ) + part -
          (numerator / denominator + 1 : Nat)| = 1 - part := by
        rw [abs_sub_comm, abs_of_nonneg] <;> push_cast <;> linarith
      rw [rest]
      exact ⟨by linarith, fun tie => absurd tie (by linarith)⟩
    case isFalse notHigh =>
      have tie : part = 1 / 2 :=
        le_antisymm (not_lt.mp (mt lt_half.mp notHigh)) (not_lt.mp (mt half_lt.mp notLow))
      refine ⟨?_, fun _ => by omega⟩
      rcases Nat.mod_two_eq_zero_or_one (numerator / denominator) with even | odd
      · rw [even, tie, Nat.add_zero, add_sub_cancel_left]
        norm_num
      · rw [odd, tie, Nat.cast_succ, add_sub_add_left_eq_sub]
        norm_num

theorem half_le_abs_sub {value : ℚ} {whole other : Nat} (near : |value - whole| ≤ 1 / 2)
    (different : other ≠ whole) : 1 / 2 ≤ |value - other| := by
  have apart : (1 : ℚ) ≤ |(other : ℚ) - whole| := by
    have : (1 : ℤ) ≤ |(other : ℤ) - whole| := Int.one_le_abs (by omega)
    exact_mod_cast this
  have through := abs_sub_le (other : ℚ) value whole
  rw [abs_sub_comm (other : ℚ) value] at through
  linarith

/-! The nearest whole number at the place of a magnitude gives the nearest code. -/

theorem abs_sub_scale {scale : ℚ} (positive : 0 < scale) (first second : ℚ) :
    |first * scale - second * scale| = |first - second| * scale := by
  rw [← sub_mul, abs_mul, abs_of_pos positive]

theorem distance_eq {scaled value : ℚ} (same : value = scaled / format.unit) (code : Nat) :
    format.distance value code = |scaled - format.steps code| / format.unit := by
  rw [distance, magnitude, same, ← sub_div, abs_div, abs_of_pos format.unit_pos]

/-- A code with a lower place is farther than the leading bit at this one. -/
theorem steps_lt_of_lower {significand place shift : Nat} (small : significand < 2 * format.binade)
    (lower : place < shift) : significand * 2 ^ place < format.binade * 2 ^ shift := by
  calc significand * 2 ^ place < 2 * format.binade * 2 ^ place :=
        Nat.mul_lt_mul_of_pos_right small (Nat.pow_pos (by decide))
    _ = format.binade * 2 ^ (place + 1) := by ring
    _ ≤ format.binade * 2 ^ shift :=
        Nat.mul_le_mul_left _ (Nat.pow_le_pow_right (by decide) lower)

theorem closer_than_lower {value lower : ℚ} {significand shift : Nat}
    (near : |value - significand| ≤ 1 / 2) (significant : format.binade ≤ significand)
    (large : (format.binade : ℚ) ≤ value) (less : lower < format.binade * 2 ^ shift) :
    |value - significand| * 2 ^ shift < |value * 2 ^ shift - lower| := by
  have closer : |value - significand| ≤ value - format.binade := by
    rcases Nat.eq_or_lt_of_le significant with same | above
    · rw [← same, abs_of_nonneg (sub_nonneg.mpr large)]
    · have far := half_le_abs_sub near (Nat.ne_of_lt above)
      rw [abs_of_nonneg (sub_nonneg.mpr large)] at far
      exact near.trans far
  have scaled := mul_le_mul_of_nonneg_right closer (show (0 : ℚ) ≤ 2 ^ shift by positivity)
  rw [sub_mul] at scaled
  exact lt_of_lt_of_le (by linarith) (le_abs_self _)

theorem closer_than_multiple {value : ℚ} {significand multiple : Nat} (shift : Nat)
    (near : |value - significand| ≤ 1 / 2) (different : multiple ≠ significand) :
    |value - significand| * 2 ^ shift ≤ |value * 2 ^ shift - multiple * 2 ^ shift| ∧
      (|value * 2 ^ shift - multiple * 2 ^ shift| = |value - significand| * 2 ^ shift →
        |value - significand| = 1 / 2) := by
  have power : (0 : ℚ) < 2 ^ shift := by positivity
  have far := half_le_abs_sub near different
  rw [abs_sub_scale power]
  refine ⟨mul_le_mul_of_nonneg_right (near.trans far) power.le, fun tie => ?_⟩
  have equal := mul_right_cancel₀ power.ne' tie
  exact le_antisymm near (equal ▸ far)

theorem closest_of_parts {value : ℚ} {significand shift : Nat}
    (near : |value - significand| ≤ 1 / 2) (small : significand ≤ 2 * format.binade)
    (leading : shift ≠ 0 → format.binade ≤ significand ∧ (format.binade : ℚ) ≤ value)
    {other : Nat} (different : other ≠ shift * format.binade + significand) :
    |value - significand| * 2 ^ shift ≤ |value * 2 ^ shift - format.steps other| ∧
      (|value * 2 ^ shift - format.steps other| = |value - significand| * 2 ^ shift →
        |value - significand| = 1 / 2) := by
  obtain ⟨s, place, steps, whole, bound, _⟩ := format.steps_eq other
  rcases Nat.lt_or_ge place shift with lower | same
  · obtain ⟨significant, large⟩ := leading (by omega)
    have less : (format.steps other : ℚ) < format.binade * 2 ^ shift := by
      rw [steps]
      exact_mod_cast steps_lt_of_lower bound lower
    have apart := closer_than_lower near significant large less
    exact ⟨apart.le, fun tie => absurd tie apart.ne'⟩
  · obtain ⟨extra, rfl⟩ := Nat.exists_eq_add_of_le same
    have multiple : format.steps other = s * 2 ^ extra * 2 ^ shift := by
      rw [steps, Nat.pow_add]
      ring
    have apart : s * 2 ^ extra ≠ significand := by
      rintro rfl
      have own := format.steps_of_parts small fun present => (leading present).1
      exact different (format.steps_strictMono.injective (multiple.trans own.symm))
    rw [multiple, Nat.cast_mul, Nat.cast_pow 2 shift, Nat.cast_ofNat]
    exact closer_than_multiple shift near apart

theorem isNearest_infinity {value : ℚ} (large : format.magnitude format.infinity ≤ value) :
    format.IsNearest value format.infinity := by
  have farther (other : Nat) (less : other < format.infinity) :
      format.distance value format.infinity < format.distance value other := by
    have lower := format.magnitude_strictMono less
    rw [distance, distance, abs_of_nonneg (by linarith), abs_of_nonneg (by linarith)]
    linarith
  refine ⟨le_rfl, fun other bounded => ?_, fun other bounded different tie => ?_⟩
  · rcases Nat.eq_or_lt_of_le bounded with rfl | less
    · exact le_rfl
    · exact (farther other less).le
  · exact absurd tie (farther other (Nat.lt_of_le_of_ne bounded different)).ne'

theorem isNearest_min {value : ℚ} {code : Nat}
    (closest : ∀ other, format.distance value code ≤ format.distance value other)
    (even : ∀ other ≠ code, format.distance value other = format.distance value code →
      code % 2 = 0) : format.IsNearest value (min code format.infinity) := by
  rcases Nat.lt_or_ge format.infinity code with beyond | finite
  · rw [Nat.min_eq_right beyond.le]
    have past : format.magnitude format.infinity ≤ value := by
      by_contra below
      have upper := format.magnitude_strictMono beyond
      have nearer := closest format.infinity
      rw [distance, distance, abs_of_neg (by linarith), abs_of_neg (by linarith)] at nearer
      linarith
    exact isNearest_infinity past
  · rw [Nat.min_eq_left finite]
    exact ⟨finite, fun other _ => closest other, fun other _ => even other⟩

theorem quotient_bounds (format : Format) (scaled : Nat) {denominator : Nat}
    (positive : 0 < denominator) :
    let shift := (scaled / denominator).log2 - format.fractionBits
    scaled < 2 * format.binade * (denominator * 2 ^ shift) ∧
      (shift ≠ 0 → format.binade * (denominator * 2 ^ shift) ≤ scaled) := by
  intro shift
  have binade : format.binade = 2 ^ format.fractionBits := rfl
  constructor
  · have whole : scaled / denominator < 2 ^ (format.fractionBits + shift + 1) :=
      lt_of_lt_of_le Nat.lt_log2_self (Nat.pow_le_pow_right (by decide) (by omega))
    have product := (Nat.div_lt_iff_lt_mul positive).mp whole
    calc scaled < 2 ^ (format.fractionBits + shift + 1) * denominator := product
      _ = 2 * format.binade * (denominator * 2 ^ shift) := by rw [binade]; ring
  · intro present
    have place : (scaled / denominator).log2 = format.fractionBits + shift := by omega
    have nonzero : scaled / denominator ≠ 0 := by
      intro zero
      simp [zero, shift] at present
    have whole : 2 ^ (format.fractionBits + shift) ≤ scaled / denominator :=
      place ▸ Nat.log2_self_le nonzero
    calc format.binade * (denominator * 2 ^ shift) =
          2 ^ (format.fractionBits + shift) * denominator := by rw [binade]; ring
      _ ≤ scaled := (Nat.le_div_iff_mul_le positive).mp whole

theorem le_of_near_of_lt {value : ℚ} {whole bound : Nat} (near : |value - whole| ≤ 1 / 2)
    (less : value < bound) : whole ≤ bound := by
  have low := (abs_le.mp near).1
  have : (whole : ℚ) < (bound + 1 : Nat) := by
    push_cast
    linarith
  exact Nat.lt_succ_iff.mp (Nat.cast_lt.mp this)

theorem le_of_near_of_le {value : ℚ} {whole bound : Nat} (near : |value - whole| ≤ 1 / 2)
    (more : (bound : ℚ) ≤ value) : bound ≤ whole := by
  have high := (abs_le.mp near).2
  have : (bound : ℚ) < (whole + 1 : Nat) := by
    push_cast
    linarith
  exact Nat.lt_succ_iff.mp (Nat.cast_lt.mp this)

/-- The nearest whole number of units at a place is the nearest of all codes. -/
theorem isNearest_of_parts (evenBinade : 2 ∣ format.binade) {value quotient : ℚ}
    {significand shift : Nat} (near : |quotient - significand| ≤ 1 / 2)
    (tie : |quotient - significand| = 1 / 2 → significand % 2 = 0)
    (small : significand ≤ 2 * format.binade)
    (leading : shift ≠ 0 → format.binade ≤ significand ∧ (format.binade : ℚ) ≤ quotient)
    (same : value = quotient * 2 ^ shift / format.unit) :
    format.IsNearest value (min (shift * format.binade + significand) format.infinity) := by
  have own : format.distance value (shift * format.binade + significand) =
      |quotient - significand| * 2 ^ shift / format.unit := by
    rw [distance_eq same, format.steps_of_parts small fun present => (leading present).1]
    push_cast
    rw [abs_sub_scale (by positivity)]
  refine isNearest_min (fun other => ?_) fun other different equal => ?_
  · rcases eq_or_ne other (shift * format.binade + significand) with rfl | different
    · exact le_rfl
    · rw [own, distance_eq same]
      exact div_le_div_of_nonneg_right (closest_of_parts near small leading different).1
        format.unit_pos.le
  · rw [own, distance_eq same, div_left_inj' format.unit_pos.ne'] at equal
    have even := tie ((closest_of_parts near small leading different).2 equal)
    obtain ⟨half, isHalf⟩ := evenBinade
    rw [isHalf, Nat.mul_left_comm, Nat.mul_add_mod]
    exact even

/-- A quotient is rounded to nearest, ties to even. -/
theorem nearest_isNearest (evenBinade : 2 ∣ format.binade) {denominator : Nat}
    (positive : 0 < denominator) (numerator : Nat) :
    format.IsNearest (numerator / denominator) (format.nearest numerator denominator) := by
  obtain ⟨scaled, isScaled⟩ : ∃ scaled, scaled = numerator * format.unit := ⟨_, rfl⟩
  obtain ⟨shift, isShift⟩ :
      ∃ shift, shift = (scaled / denominator).log2 - format.fractionBits := ⟨_, rfl⟩
  obtain ⟨upper, lower⟩ := format.quotient_bounds scaled positive
  rw [← isShift] at upper lower
  have size : 0 < denominator * 2 ^ shift := Nat.mul_pos positive (Nat.pow_pos (by decide))
  have sizeQ : (0 : ℚ) < (denominator * 2 ^ shift : Nat) := Nat.cast_pos.mpr size
  obtain ⟨near, tie⟩ := roundToEven_near size scaled
  have small : (scaled / (denominator * 2 ^ shift : Nat) : ℚ) < (2 * format.binade : Nat) := by
    rw [div_lt_iff₀ sizeQ]
    exact_mod_cast upper
  have large (present : shift ≠ 0) :
      (format.binade : ℚ) ≤ scaled / (denominator * 2 ^ shift : Nat) := by
    rw [le_div_iff₀ sizeQ]
    exact_mod_cast lower present
  have value : (numerator / denominator : ℚ) =
      scaled / (denominator * 2 ^ shift : Nat) * 2 ^ shift / format.unit := by
    have unit := format.unit_pos
    have divisor : (0 : ℚ) < denominator := Nat.cast_pos.mpr positive
    rw [isScaled]
    push_cast
    field_simp
  have computed : format.nearest numerator denominator =
      min (shift * format.binade + roundToEven scaled (denominator * 2 ^ shift))
        format.infinity := by
    simp only [nearest, ← isScaled, ← isShift]
    rfl
  rw [computed]
  exact isNearest_of_parts evenBinade near tie (le_of_near_of_lt near small)
    (fun present => ⟨le_of_near_of_le near (large present), large present⟩) value

/-! Where the codes below a bound end. -/

/-- The number halfway between the magnitude of a code and the one before it. -/
def midpoint (format : Format) (code : Nat) : ℚ :=
  (format.magnitude (code - 1) + format.magnitude code) / 2

/-- What is rounded below an even code lies below its midpoint, since a tie goes to the code. -/
theorem IsNearest.lt_iff {value : ℚ} {code : Nat} (nearest : format.IsNearest value code)
    (bound : Nat) (even : bound % 2 = 0) (positive : 0 < bound) (finite : bound ≤ format.infinity) :
    code < bound ↔ value < format.midpoint bound := by
  have order := format.magnitude_strictMono
  have before : format.magnitude (bound - 1) < format.magnitude bound := order (by omega)
  rw [midpoint, ← not_le (b := value)]
  constructor
  · intro less high
    have lower : format.magnitude code ≤ format.magnitude (bound - 1) :=
      order.monotone (by omega)
    have below : value < format.magnitude bound := by
      by_contra above
      have closer := nearest.closest bound finite
      rw [distance, distance, abs_of_nonneg (by linarith), abs_of_nonneg (by linarith)] at closer
      linarith
    have own : format.distance value code = value - format.magnitude code :=
      abs_of_nonneg (by linarith)
    have other : format.distance value bound = format.magnitude bound - value := by
      rw [distance, abs_sub_comm, abs_of_pos (by linarith)]
    have closer := nearest.closest bound finite
    -- Only a tie with the code before the bound is left, and that code is odd.
    have tie : format.distance value bound = format.distance value code := by linarith
    have last : code = bound - 1 := order.injective (by linarith)
    have evenCode := nearest.even bound finite less.ne' tie
    omega
  · intro low
    by_contra more
    have upper : format.magnitude bound ≤ format.magnitude code := order.monotone (by omega)
    have closer := nearest.closest (bound - 1) (by omega)
    rw [distance, distance, abs_sub_comm, abs_of_nonneg (by linarith)] at closer
    rcases abs_cases (value - format.magnitude (bound - 1)) with ⟨same, _⟩ | ⟨same, _⟩ <;>
      linarith

theorem IsNearest.not_lt {value : ℚ} {first second : Nat} (one : format.IsNearest value first)
    (two : format.IsNearest value second) : ¬ first < second := by
  intro less
  have tie : format.distance value second = format.distance value first :=
    le_antisymm (two.closest first one.bounded) (one.closest second two.bounded)
  have evenFirst := one.even second two.bounded less.ne' tie
  have evenSecond := two.even first one.bounded less.ne tie.symm
  -- Between two even codes lies another one, which would be closer.
  have order := format.magnitude_strictMono
  have lower : format.magnitude first < format.magnitude (first + 1) := order (by omega)
  have upper : format.magnitude (first + 1) < format.magnitude second := order (by omega)
  have closer := one.closest (first + 1) (Nat.le_trans less two.bounded)
  simp only [distance] at tie closer
  rcases abs_cases (value - format.magnitude first) with ⟨a, _⟩ | ⟨a, _⟩ <;>
    rcases abs_cases (value - format.magnitude second) with ⟨b, _⟩ | ⟨b, _⟩ <;>
      rcases abs_cases (value - format.magnitude (first + 1)) with ⟨c, _⟩ | ⟨c, _⟩ <;> linarith

theorem IsNearest.unique {value : ℚ} {first second : Nat} (one : format.IsNearest value first)
    (two : format.IsNearest value second) : first = second :=
  Nat.le_antisymm (Nat.le_of_not_lt (two.not_lt one)) (Nat.le_of_not_lt (one.not_lt two))

/-- Whether a number is rounded to a finite magnitude. -/
def Keeps (format : Format) (value : ℚ) : Prop :=
  ∃ code < format.infinity, format.IsNearest value code

/-! Magnitudes at the two ends. -/

theorem isNearest_zero {value : ℚ} (nonneg : 0 ≤ value)
    (small : 2 * value ≤ format.magnitude 1) : format.IsNearest value 0 := by
  refine ⟨Nat.zero_le _, fun other _ => ?_, fun _ _ _ _ => rfl⟩
  have own : format.distance value 0 = value := by
    rw [distance, magnitude_zero, sub_zero, abs_of_nonneg nonneg]
  rcases Nat.eq_zero_or_pos other with rfl | positive
  · exact le_rfl
  · have more : format.magnitude 1 ≤ format.magnitude other :=
      format.magnitude_strictMono.monotone positive
    rw [own, distance, abs_sub_comm]
    exact le_trans (by linarith) (le_abs_self _)

end Format

namespace Decimal

theorem denominator_pos (decimal : Decimal) : 0 < decimal.denominator :=
  Nat.pow_pos (by decide)

theorem value_eq_quotient (decimal : Decimal) :
    decimal.value = decimal.numerator / decimal.denominator := by
  obtain ⟨coefficient, exponent⟩ := decimal
  obtain ⟨places, rfl | rfl⟩ := exponent.eq_nat_or_neg
  · simp [value, numerator, denominator]
  · simp [value, numerator, denominator, div_eq_mul_inv]

theorem value_nonneg (decimal : Decimal) : 0 ≤ decimal.value :=
  mul_nonneg (Nat.cast_nonneg _) (zpow_nonneg (by norm_num) _)

end Decimal

namespace Binary64

theorem even_binade : 2 ∣ Format.binary64.binade := by decide

theorem magnitude_infinity : Format.binary64.magnitude Format.binary64.infinity = 2 ^ 1024 := by
  have steps : Format.binary64.steps Format.binary64.infinity =
      2 ^ 1024 * Format.binary64.unit := by
    decide +kernel
  rw [Format.magnitude_eq _ steps, Nat.cast_pow, Nat.cast_ofNat]

theorem magnitude_one : Format.binary64.magnitude 1 = 1 / 2 ^ 1074 := by
  have steps : Format.binary64.steps 1 = 1 := by decide
  rw [Format.magnitude, steps, Format.unit_eq, Nat.cast_one, Nat.cast_pow, Nat.cast_ofNat]
  rfl

theorem infinity_le_value {decimal : Decimal} (present : decimal.coefficient ≠ 0)
    (large : 400 ≤ decimal.exponent) : (2 : ℚ) ^ 1024 ≤ decimal.value := by
  have one : (1 : ℚ) ≤ decimal.coefficient := Nat.one_le_cast.mpr (Nat.pos_of_ne_zero present)
  calc (2 : ℚ) ^ 1024 ≤ 2 ^ (3 * 400) := pow_le_pow_right₀ (by norm_num) (by norm_num)
    _ = 8 ^ 400 := by rw [pow_mul]; norm_num
    _ ≤ 10 ^ 400 := pow_le_pow_left₀ (by norm_num) (by norm_num) 400
    _ ≤ (10 : ℚ) ^ decimal.exponent := by
        rw [← zpow_natCast]
        exact zpow_le_zpow_right₀ (by norm_num) large
    _ ≤ decimal.value := le_mul_of_one_le_left (zpow_nonneg (by norm_num) _) one

theorem value_le_half_step {decimal : Decimal}
    (small : decimal.exponent + decimal.coefficient.log2 < -400) :
    2 * decimal.value ≤ 1 / 2 ^ 1074 := by
  obtain ⟨places, isPlaces⟩ : ∃ places : Nat, decimal.exponent = -places :=
    ⟨decimal.exponent.natAbs, by omega⟩
  have digits : decimal.coefficient < 2 ^ (decimal.coefficient.log2 + 1) := Nat.lt_log2_self
  have scaled : 2 * decimal.coefficient * 2 ^ 1074 ≤ 10 ^ places := by
    calc 2 * decimal.coefficient * 2 ^ 1074
        ≤ 2 * 2 ^ (decimal.coefficient.log2 + 1) * 2 ^ 1074 := by gcongr
      _ = 2 ^ (decimal.coefficient.log2 + 1076) := by rw [← Nat.pow_succ', ← Nat.pow_add]
      _ ≤ 2 ^ (3 * places) := Nat.pow_le_pow_right (by decide) (by omega)
      _ = 8 ^ places := by rw [Nat.pow_mul]
      _ ≤ 10 ^ places := Nat.pow_le_pow_left (by decide) places
  rw [Decimal.value, isPlaces, zpow_neg, zpow_natCast, ← div_eq_mul_inv, ← mul_div_assoc,
    div_le_div_iff₀ (by positivity) (by positivity), one_mul]
  exact_mod_cast scaled

/-- A decimal of any length is rounded to nearest, however far it lies out of range. -/
theorem ofDecimal_isNearest (negative : Bool) (decimal : Decimal) :
    Format.binary64.IsNearest decimal.value (ofDecimal negative decimal).code := by
  unfold ofDecimal
  split
  case isTrue zero =>
    have value : decimal.value = 0 := by simp [Decimal.value, zero]
    exact value ▸ Format.isNearest_zero le_rfl (by simp [magnitude_one])
  case isFalse present =>
    split
    case isTrue large =>
      exact Format.isNearest_infinity (magnitude_infinity ▸ infinity_le_value present large)
    case isFalse =>
      split
      case isTrue small =>
        exact Format.isNearest_zero decimal.value_nonneg
          (magnitude_one ▸ value_le_half_step small)
      case isFalse =>
        rw [decimal.value_eq_quotient]
        exact Format.nearest_isNearest even_binade decimal.denominator_pos _

theorem ofInt_isNearest (value : Int) :
    Format.binary64.IsNearest value.natAbs (ofInt value).code := by
  have quotient := Format.nearest_isNearest even_binade Nat.one_pos value.natAbs
  rwa [Nat.cast_one, div_one] at quotient

end Binary64

end ScalarC
