import ScalarC.Proofs.Numbers.Integers
import ScalarC.Proofs.Numbers.Nearest

/-!
Literals at the floating-point types. A literal has a value there if its number
is rounded to a finite one, by whatever spelling, with two exceptions: a spelling
without a point and an exponent has to stand for less than `2 ^ 64`, and at the
narrow type the number is rounded to a double before it is rounded again.
-/

namespace ScalarC

def DataType.format? : DataType → Option Format
  | .f32 => some .binary32
  | .f64 => some .binary64
  | .i32 | .i64 => none

namespace Format

variable {format : Format}

theorem exists_isNearest (evenBinade : 2 ∣ format.binade) {value : ℚ} (nonneg : 0 ≤ value) :
    ∃ code, format.IsNearest value code := by
  have quotient : (value.num.toNat / value.den : ℚ) = value := by
    have whole : ((value.num.toNat : ℤ) : ℚ) = value.num :=
      congrArg _ (Int.toNat_of_nonneg (Rat.num_nonneg.mpr nonneg))
    rw [← Int.cast_natCast, whole, Rat.num_div_den]
  exact ⟨_, quotient ▸ nearest_isNearest evenBinade value.den_pos value.num.toNat⟩

theorem IsNearest.keeps_iff {value : ℚ} {code : Nat} (nearest : format.IsNearest value code) :
    format.Keeps value ↔ code < format.infinity :=
  ⟨fun ⟨_, finite, other⟩ => other.unique nearest ▸ finite, fun finite => ⟨code, finite, nearest⟩⟩

/-- The finite ones are those below the midpoint in front of infinity. -/
theorem keeps_iff (evenBinade : 2 ∣ format.binade) (positive : 0 < format.infinity)
    {value : ℚ} (nonneg : 0 ≤ value) :
    format.Keeps value ↔ value < format.midpoint format.infinity := by
  obtain ⟨code, nearest⟩ := exists_isNearest evenBinade nonneg
  have even : format.infinity % 2 = 0 :=
    Nat.mod_eq_zero_of_dvd (Dvd.dvd.mul_left evenBinade _)
  rw [nearest.keeps_iff, nearest.lt_iff _ even positive le_rfl]

end Format

namespace Binary64

/-- The first double that is rounded to infinity at 32 bits. -/
def narrowLimit : Nat := 1151 * 2 ^ 52 - 2 ^ 28

theorem magnitude_narrowLimit : Format.binary64.magnitude narrowLimit = 2 ^ 128 - 2 ^ 103 := by
  rw [Format.magnitude_eq (2 ^ 128 - 2 ^ 103) (by decide +kernel)]
  norm_num

theorem midpoint_narrowLimit :
    Format.binary64.midpoint narrowLimit = 2 ^ 128 - 2 ^ 103 - 2 ^ 74 := by
  rw [Format.midpoint, magnitude_narrowLimit,
    Format.magnitude_eq (2 ^ 128 - 2 ^ 103 - 2 ^ 75) (by decide +kernel)]
  norm_num

theorem midpoint_infinity32 :
    Format.binary32.midpoint Format.binary32.infinity = 2 ^ 128 - 2 ^ 103 := by
  rw [Format.midpoint, Format.magnitude_eq (2 ^ 128 - 2 ^ 104) (by decide +kernel),
    Format.magnitude_eq (2 ^ 128) (by decide +kernel)]
  norm_num

theorem narrowLimit_le_infinity : narrowLimit ≤ Format.binary64.infinity := by decide

theorem isFinite32_iff (value : Binary64) :
    value.isFinite32 = true ↔ value.code < narrowLimit := by
  have narrow : Format.binary32.IsNearest (Format.binary64.magnitude value.code)
      (Format.binary32.nearest (Format.binary64.steps value.code) Format.binary64.unit) :=
    Format.nearest_isNearest (by decide) (Nat.cast_pos.mp Format.binary64.unit_pos) _
  have bound := narrow.lt_iff Format.binary32.infinity (by decide) (by decide) le_rfl
  rw [midpoint_infinity32, ← magnitude_narrowLimit,
    Format.binary64.magnitude_strictMono.lt_iff_lt] at bound
  rw [isFinite32, isFinite, Bool.and_eq_true, decide_eq_true_eq, decide_eq_true_eq, bound]
  exact and_iff_right_of_imp fun less => Nat.lt_of_lt_of_le less narrowLimit_le_infinity

end Binary64

namespace DataType

/-- The first double that is not finite at a type. -/
def limit (type : DataType) : Nat :=
  if type = .f32 then Binary64.narrowLimit else Format.binary64.infinity

/-- The numbers that are finite at the narrow type, but whose doubles are not. -/
def Narrows (type : DataType) (value : ℚ) : Prop :=
  type = .f32 ∧ 2 ^ 128 - 2 ^ 103 - 2 ^ 74 ≤ value ∧ value < 2 ^ 128 - 2 ^ 103

theorem lt_limit_iff {type : DataType} {format : Format} (float : type.format? = some format)
    {value : ℚ} (nonneg : 0 ≤ value) {code : Nat}
    (nearest : Format.binary64.IsNearest value code) :
    code < type.limit ↔ format.Keeps value ∧ ¬ type.Narrows value := by
  cases type with
  | i32 | i64 => cases float
  | f32 =>
      cases float
      have double := nearest.lt_iff Binary64.narrowLimit (by decide) (by decide)
        Binary64.narrowLimit_le_infinity
      rw [Binary64.midpoint_narrowLimit] at double
      rw [Format.keeps_iff (by decide) (by decide) nonneg, Binary64.midpoint_infinity32]
      simp only [limit, ↓reduceIte, Narrows, true_and, double]
      constructor
      · exact fun low => ⟨by linarith, fun narrow => absurd low (not_lt.mpr narrow.1)⟩
      · exact fun ⟨finite, wide⟩ => lt_of_not_ge fun high => wide ⟨high, finite⟩
  | f64 =>
      cases float
      simp [limit, Narrows, nearest.keeps_iff]

end DataType

namespace Literal

theorem fits_eq (type : DataType) (value : Binary64) :
    (if type = .f32 then value.isFinite32 else value.isFinite) =
      decide (value.code < type.limit) := by
  by_cases narrow : type = .f32
  · rw [if_pos narrow, DataType.limit, if_pos narrow, Bool.eq_iff_iff, Binary64.isFinite32_iff,
      decide_eq_true_eq]
  · simp [narrow, DataType.limit, Binary64.isFinite]

theorem finite_eq (literal : Literal) (type : DataType) (value : Binary64) :
    literal.finite type value = if value.code < type.limit then .ok (.float value)
      else .error (.typeMismatch (.literalOutOfRange literal.text type) literal.location) := by
  simp only [finite, fits_eq, decide_eq_true_eq]

/-- Numerals of either kind, and their numbers. -/
def Denotes (text : List Char) (value : ℚ) : Prop :=
  (∃ number : Nat, Scanner.IsWhole text number ∧ value = number) ∨ Scanner.IsFraction text value

theorem Denotes.nonneg {text : List Char} {value : ℚ} (denotes : Denotes text value) :
    0 ≤ value := by
  rcases denotes with ⟨number, _, rfl⟩ | fraction
  · exact Nat.cast_nonneg number
  · obtain ⟨decimal, _, rfl⟩ := Scanner.read?_of_fraction fraction
    exact decimal.value_nonneg

/-- The spellings that have no value although their number may be finite. -/
def Excepted (type : DataType) (text : List Char) (value : ℚ) : Prop :=
  (∃ number, Scanner.IsWhole text number ∧ 2 ^ 64 ≤ number) ∨
    Scanner.IsFraction text value ∧ type.Narrows value

theorem excepted_of_whole {type : DataType} {text : String} {number : Nat}
    (whole : Scanner.IsWhole text.toList number) (value : ℚ) :
    Excepted type text.toList value ↔ 2 ^ 64 ≤ number := by
  constructor
  · rintro (⟨other, same, large⟩ | ⟨fraction, _⟩)
    · by_contra small
      have read := Scanner.magnitude?_of_whole whole
      rw [Scanner.magnitude?_of_whole same, if_neg (Nat.not_lt.mpr large),
        if_pos (Nat.lt_of_not_le small)] at read
      cases read
    · exact absurd fraction.fractional (by simp [whole.not_fractional])
  · exact fun large => .inl ⟨number, whole, large⟩

theorem excepted_of_fraction {type : DataType} {text : String} {value : ℚ}
    (fraction : Scanner.IsFraction text.toList value) :
    Excepted type text.toList value ↔ type.Narrows value := by
  constructor
  · rintro (⟨number, whole, _⟩ | ⟨_, narrows⟩)
    · exact absurd fraction.fractional (by simp [whole.not_fractional])
    · exact narrows
  · exact fun narrows => .inr ⟨fraction, narrows⟩

theorem code_lt_limit {type : DataType} {number code : Nat} (small : number < 2 ^ 64)
    (nearest : Format.binary64.IsNearest number code) : code < type.limit := by
  have low : code < Binary64.narrowLimit := by
    rw [nearest.lt_iff _ (by decide) (by decide) Binary64.narrowLimit_le_infinity,
      Binary64.midpoint_narrowLimit]
    calc (number : ℚ) < (2 ^ 64 : Nat) := Nat.cast_lt.mpr small
      _ < 2 ^ 128 - 2 ^ 103 - 2 ^ 74 := by norm_num
  unfold DataType.limit
  split
  · exact low
  · exact Nat.lt_of_lt_of_le low Binary64.narrowLimit_le_infinity

theorem floatValue_of_whole {type : DataType} {format : Format}
    (float : type.format? = some format) {text : String} {number : Nat}
    (whole : Scanner.IsWhole text.toList number) (negative : Bool) (place : Location) :
    ∃ double : Binary64, Format.binary64.IsNearest number double.code ∧
      (number ≠ 0 → double.negative = negative) ∧
      value ⟨text, negative, place⟩ type = if number < 2 ^ 64 then .ok (.float double)
        else .error (.typeMismatch
          (.literalOutOfRange (signedText ⟨text, negative, place⟩) type) place) := by
  have nearest := Binary64.ofInt_isNearest (signed negative number)
  rw [show (signed negative number).natAbs = number by cases negative <;> simp [signed]] at nearest
  have bounds : integerBounds? type = none := by cases type <;> first | rfl | cases float
  refine ⟨_, nearest, fun present => ?_, ?_⟩
  · cases negative <;> simp [Binary64.ofInt, Binary64.ofRatio, signed, Nat.pos_iff_ne_zero, present]
  · simp only [value, whole.not_fractional, Bool.false_eq_true, ↓reduceIte, integerValue,
      Scanner.magnitude?_of_whole whole]
    by_cases small : number < 2 ^ 64
    · simp only [small, ↓reduceIte, bounds, finite_eq]
      exact if_pos (code_lt_limit small nearest)
    · simp only [small, ↓reduceIte]

theorem floatValue_of_fraction {type : DataType} {format : Format}
    (float : type.format? = some format) {text : String} {number : ℚ}
    (fraction : Scanner.IsFraction text.toList number) (negative : Bool) (place : Location) :
    ∃ double : Binary64, Format.binary64.IsNearest number double.code ∧
      double.negative = negative ∧
      value ⟨text, negative, place⟩ type =
        if double.code < type.limit then .ok (.float double)
        else .error (.typeMismatch (.literalOutOfRange text type) place) := by
  obtain ⟨decimal, read, rfl⟩ := Scanner.read?_of_fraction fraction
  have plain : type.isInteger = false := by cases type <;> first | rfl | cases float
  have nearest := Binary64.ofDecimal_isNearest false decimal
  have sign : (Binary64.ofDecimal false decimal).negative = false := by
    rw [Binary64.ofDecimal_negative]
  refine ⟨if negative then (Binary64.ofDecimal false decimal).negate
    else Binary64.ofDecimal false decimal, ?_, ?_, ?_⟩
  · cases negative <;> exact nearest
  · cases negative <;> simp [Binary64.negate, sign]
  · simp only [value, fraction.fractional, ↓reduceIte, fractionalValue, plain, Bool.false_eq_true,
      read, finite_eq]

theorem floatValue_of_denotes {type : DataType} {format : Format}
    (float : type.format? = some format) {text : String} {number : ℚ}
    (denotes : Denotes text.toList number) (negative : Bool) (place : Location) :
    ∃ double fault, Format.binary64.IsNearest number (Binary64.code double) ∧
      (number ≠ 0 → double.negative = negative) ∧
      (format.Keeps number ∧ ¬ Excepted type text.toList number →
        value ⟨text, negative, place⟩ type = .ok (.float double)) ∧
      (¬ (format.Keeps number ∧ ¬ Excepted type text.toList number) →
        value ⟨text, negative, place⟩ type = .error (.typeMismatch fault place)) := by
  have nonneg := denotes.nonneg
  rcases denotes with ⟨whole, isWhole, rfl⟩ | fraction
  · obtain ⟨double, nearest, sign, own⟩ := floatValue_of_whole float isWhole negative place
    have limits : format.Keeps whole ∧ ¬ Excepted type text.toList whole ↔ whole < 2 ^ 64 := by
      rw [excepted_of_whole isWhole, Nat.not_le, and_iff_right_of_imp fun small =>
        ((DataType.lt_limit_iff float nonneg nearest).mp (code_lt_limit small nearest)).1]
    simp only [limits, own]
    exact ⟨double, _, nearest, fun present => sign (Nat.cast_ne_zero.mp present),
      fun small => if_pos small, fun large => if_neg large⟩
  · obtain ⟨double, nearest, sign, own⟩ := floatValue_of_fraction float fraction negative place
    simp only [excepted_of_fraction fraction, ← DataType.lt_limit_iff float nonneg nearest, own]
    exact ⟨double, _, nearest, fun _ => sign, fun low => if_pos low, fun high => if_neg high⟩

theorem isNumeral_iff_denotes (text : List Char) :
    Scanner.IsNumeral text ↔ ∃ number, Denotes text number := by
  rw [Scanner.isNumeral_iff]
  constructor
  · rintro (⟨number, whole⟩ | ⟨number, fraction⟩)
    · exact ⟨number, .inl ⟨number, whole, rfl⟩⟩
    · exact ⟨number, .inr fraction⟩
  · rintro ⟨_, ⟨number, whole, rfl⟩ | fraction⟩
    · exact .inl ⟨number, whole⟩
    · exact .inr ⟨_, fraction⟩

theorem isFraction_zero {digits : List Char} (run : Scanner.IsRun Char.isDigit digits) :
    Scanner.IsFraction (digits ++ ['.', '0']) (Scanner.positional 10 digits) := by
  have zero : (Scanner.positional 10 ['0'] : ℚ) = 0 := by
    rw [show Scanner.positional 10 ['0'] = 0 by decide, Nat.cast_zero]
  have both : Scanner.IsRun Char.isDigit (digits ++ ['0']) :=
    ⟨by simp, List.forall_mem_append.mpr ⟨run.2, List.forall_mem_singleton.mpr rfl⟩⟩
  simpa [Scanner.pointed, zero] using Scanner.IsFraction.pointed both

theorem equals_of_isNearest {number : Nat} {first second : Binary64}
    (one : Format.binary64.IsNearest number first.code)
    (two : Format.binary64.IsNearest number second.code)
    (sign : number ≠ 0 → first.negative = second.negative) : first.equals second = true := by
  have same := one.unique two
  have finite : ¬ Format.binary64.infinity < second.code := Nat.not_lt.mpr two.bounded
  by_cases zero : number = 0
  · have none : first.code = 0 := by
      refine one.unique ?_
      rw [zero, Nat.cast_zero]
      exact Format.isNearest_zero le_rfl (by simp [Binary64.magnitude_one])
    simp [Binary64.equals, Binary64.isNaN, Binary64.isZero, ← same, none]
  · simp [Binary64.equals, Binary64.isNaN, same, finite, sign zero]

theorem floatValue_with_point {type : DataType} {format : Format}
    (float : type.format? = some format) {digits : List Char}
    (run : Scanner.IsRun Char.isDigit digits) (small : Scanner.positional 10 digits < 2 ^ 64)
    (negative : Bool) (place : Location) :
    ∃ first second,
      value ⟨String.ofList digits, negative, place⟩ type = .ok (.float first) ∧
      value ⟨String.ofList (digits ++ ['.', '0']), negative, place⟩ type = .ok (.float second) ∧
      first.equals second = true := by
  have whole : Scanner.IsWhole (String.ofList digits).toList (Scanner.positional 10 digits) := by
    simpa using .decimal run
  have fraction : Scanner.IsFraction (String.ofList (digits ++ ['.', '0'])).toList
      (Scanner.positional 10 digits) := by
    simpa using isFraction_zero run
  obtain ⟨first, one, signFirst, ownFirst⟩ := floatValue_of_whole float whole negative place
  obtain ⟨second, two, signSecond, ownSecond⟩ :=
    floatValue_of_fraction float fraction negative place
  refine ⟨first, second, ?_, ?_, equals_of_isNearest one two fun present => ?_⟩
  · rw [ownFirst, if_pos small]
  · rw [ownSecond, if_pos (code_lt_limit small two)]
  · rw [signFirst present, signSecond]

end Literal

/-- At a floating-point type a literal has a value if its number is rounded to a finite one, with
the exceptions, and otherwise is of no use there. Its double is the nearest one, of its sign unless
it is zero. Digits that are few enough to be read have equal doubles with and without a fraction of
zero. -/
theorem float_literal_accepted {type : DataType} {format : Format}
    (float : type.format? = some format) (negative : Bool) (place : Location) :
    (∀ text number, Literal.Denotes (String.toList text) number →
      ∃ double fault, Format.binary64.IsNearest number (Binary64.code double) ∧
        (number ≠ 0 → double.negative = negative) ∧
        (format.Keeps number ∧ ¬ Literal.Excepted type text.toList number →
          Literal.value ⟨text, negative, place⟩ type = .ok (.float double)) ∧
        (¬ (format.Keeps number ∧ ¬ Literal.Excepted type text.toList number) →
          Literal.value ⟨text, negative, place⟩ type = .error (.typeMismatch fault place))) ∧
    (∀ digits, Scanner.IsRun Char.isDigit digits → Scanner.positional 10 digits < 2 ^ 64 →
      ∃ first second,
        Literal.value ⟨String.ofList digits, negative, place⟩ type = .ok (.float first) ∧
        Literal.value ⟨String.ofList (digits ++ ['.', '0']), negative, place⟩ type =
          .ok (.float second) ∧
        first.equals second = true) ∧
    ∀ text, Scanner.IsNumeral text ↔ ∃ number, Literal.Denotes text number :=
  ⟨fun _ _ denotes => Literal.floatValue_of_denotes float denotes negative place,
    fun _ run small => Literal.floatValue_with_point float run small negative place,
    Literal.isNumeral_iff_denotes⟩

theorem float_literal_largest : ∃ first second,
    Literal.value ⟨"18446744073709551615", true, ⟨1, 1⟩⟩ .f32 = .ok (.float first) ∧
    Literal.value ⟨"18446744073709551615.0", true, ⟨1, 1⟩⟩ .f32 = .ok (.float second) ∧
    first.equals second = true :=
  (float_literal_accepted rfl true ⟨1, 1⟩).2.1 "18446744073709551615".toList (by decide)
    (by decide)

theorem denotes_narrowed :
    Literal.Denotes "3.4028235677973365e38".toList (34028235677973365 * 10 ^ 22) := by
  have digits : Scanner.IsRun Char.isDigit (['3'] ++ "4028235677973365".toList) := by
    decide
  have mantissa : Scanner.MantissaValue "3.4028235677973365".toList
      (Scanner.pointed ['3'] "4028235677973365".toList) := .pointed digits
  have power : Scanner.PowerValue "e38".toList (Scanner.positional 10 ['3', '8']) :=
    .up (by decide : 'e' ∈ _) (by decide : [] ∈ _) (by decide)
  have value : Scanner.pointed ['3'] "4028235677973365".toList *
      10 ^ (Scanner.positional 10 ['3', '8'] : ℤ) = (34028235677973365 * 10 ^ 22 : ℚ) := by
    rw [Scanner.pointed, show Scanner.positional 10 ['3'] = 3 by decide,
      show Scanner.positional 10 "4028235677973365".toList = 4028235677973365 by decide,
      show Scanner.positional 10 ['3', '8'] = 38 by decide,
      show "4028235677973365".toList.length = 16 by decide]
    norm_num
  exact .inr (value ▸ .scaled mantissa power)

/-- The next one is refused although it is finite, and although it is not with a point behind it;
so is a number that is finite at the narrow type while its double is rounded to infinity. -/
theorem finite_literal_refused :
    (Literal.Denotes "18446744073709551616".toList (2 ^ 64) ∧
      Format.binary64.Keeps (2 ^ 64) ∧
      Literal.value ⟨"18446744073709551616", false, ⟨1, 1⟩⟩ .f64 =
        .error (.typeMismatch (.literalOutOfRange "18446744073709551616" .f64) ⟨1, 1⟩) ∧
      Literal.value ⟨"18446744073709551616.0", false, ⟨1, 1⟩⟩ .f64 =
        .ok (.float (.ofBits 0x43f0000000000000))) ∧
    Literal.Denotes "3.4028235677973365e38".toList (34028235677973365 * 10 ^ 22) ∧
    Format.binary32.Keeps (34028235677973365 * 10 ^ 22) ∧
    Literal.value ⟨"3.4028235677973365e38", false, ⟨1, 1⟩⟩ .f32 =
      .error (.typeMismatch (.literalOutOfRange "3.4028235677973365e38" .f32) ⟨1, 1⟩) := by
  have nearest := Format.nearest_isNearest Binary64.even_binade Nat.one_pos (2 ^ 64)
  rw [Nat.cast_one, div_one, Nat.cast_pow, Nat.cast_ofNat] at nearest
  refine ⟨⟨.inl ⟨2 ^ 64, .decimal (by decide), by norm_num⟩, ?_, by decide +kernel,
    by decide +kernel⟩, denotes_narrowed, ?_, by decide +kernel⟩
  · exact nearest.keeps_iff.mpr (by decide +kernel)
  · rw [Format.keeps_iff (by decide) (by decide) (by norm_num), Binary64.midpoint_infinity32]
    norm_num

end ScalarC
