import Mathlib.Data.Nat.Digits.Defs
import Mathlib.Tactic.FieldSimp
import Mathlib.Tactic.Ring
import ScalarC.Proofs.Spelling.Numerals

/-!
The numbers that numerals stand for, said by the places of their digits and
without reading them. Reading gives these numbers: the whole number of a numeral
without a point and an exponent, below the greatest that is read, and a decimal
of the same value otherwise.
-/

namespace ScalarC

def Decimal.value (decimal : Decimal) : ℚ := decimal.coefficient * 10 ^ decimal.exponent

namespace Scanner

instance (inClass : Char → Bool) (text : List Char) : Decidable (IsRun inClass text) :=
  decidable_of_iff (text.isEmpty = false ∧ text.all inClass = true) (by simp [IsRun])

/-- The place of a digit in the row of all of them; a letter may be of either case. -/
def digitValue (c : Char) : Nat := "0123456789abcdef".toList.idxOf c.toLower

/-- The whole number that digits stand for in a base. The last digit counts ones. -/
def positional (base : Nat) (digits : List Char) : Nat :=
  Nat.ofDigits base (digits.reverse.map digitValue)

/-- Numerals without a point and an exponent, and their numbers. -/
inductive IsWhole : List Char → Nat → Prop where
  | decimal {digits : List Char} :
      IsRun Char.isDigit digits → IsWhole digits (positional 10 digits)
  | hexadecimal {radix digits : List Char} :
      radix ∈ [['0', 'x'], ['0', 'X']] → IsRun isHexDigit digits →
      IsWhole (radix ++ digits) (positional 16 digits)

/-- Digits behind a point count tenths, hundredths and so on. -/
def pointed (whole fraction : List Char) : ℚ :=
  positional 10 whole + positional 10 fraction / 10 ^ fraction.length

inductive MantissaValue : List Char → ℚ → Prop where
  | whole {digits : List Char} :
      IsRun Char.isDigit digits → MantissaValue digits (positional 10 digits)
  | pointed {whole fraction : List Char} :
      IsRun Char.isDigit (whole ++ fraction) →
      MantissaValue (whole ++ '.' :: fraction) (pointed whole fraction)

/-- Exponents and the powers of ten they stand for. -/
inductive PowerValue : List Char → ℤ → Prop where
  | up {mark : Char} {sign digits : List Char} :
      mark ∈ ['e', 'E'] → sign ∈ [[], ['+']] → IsRun Char.isDigit digits →
      PowerValue (mark :: sign ++ digits) (positional 10 digits)
  | down {mark : Char} {digits : List Char} :
      mark ∈ ['e', 'E'] → IsRun Char.isDigit digits →
      PowerValue (mark :: '-' :: digits) (-positional 10 digits)

/-- Numerals with a point or an exponent, and their numbers. -/
inductive IsFraction : List Char → ℚ → Prop where
  | pointed {whole fraction : List Char} :
      IsRun Char.isDigit (whole ++ fraction) →
      IsFraction (whole ++ '.' :: fraction) (pointed whole fraction)
  | scaled {body exponent : List Char} {mantissa : ℚ} {power : ℤ} :
      MantissaValue body mantissa → PowerValue exponent power →
      IsFraction (body ++ exponent) (mantissa * 10 ^ power)

/-! The numerals are those that stand for a number. -/

theorem MantissaValue.isMantissa {body : List Char} {mantissa : ℚ}
    (value : MantissaValue body mantissa) : IsMantissa body := by
  cases value with
  | whole run => exact .whole run
  | pointed run => exact .pointed run

theorem PowerValue.isExponent {exponent : List Char} {power : ℤ}
    (value : PowerValue exponent power) : IsExponent exponent := by
  cases value with
  | up isMark isSign run =>
      simp only [List.mem_cons, List.not_mem_nil, or_false] at isSign
      exact .power isMark (by simpa using isSign.imp_right Or.inl) run
  | down isMark run => exact .power isMark (show ['-'] ∈ [[], ['+'], ['-']] by simp) run

theorem IsMantissa.value {body : List Char} (isMantissa : IsMantissa body) :
    ∃ mantissa, MantissaValue body mantissa := by
  cases isMantissa with
  | whole run => exact ⟨_, .whole run⟩
  | pointed run => exact ⟨_, .pointed run⟩

theorem powerValue_of_parts {mark : Char} {sign digits : List Char} (isMark : mark ∈ ['e', 'E'])
    (isSign : sign ∈ [[], ['+'], ['-']]) (run : IsRun Char.isDigit digits) :
    ∃ power, PowerValue (mark :: sign ++ digits) power := by
  simp only [List.mem_cons, List.not_mem_nil, or_false] at isSign
  rcases isSign with rfl | rfl | rfl
  · exact ⟨_, .up isMark (by simp) run⟩
  · exact ⟨_, .up isMark (by simp) run⟩
  · exact ⟨_, .down isMark run⟩

/-- Every numeral stands for a number, as a whole one or as a fraction. -/
theorem isNumeral_iff {text : List Char} :
    IsNumeral text ↔ (∃ number, IsWhole text number) ∨ ∃ value, IsFraction text value := by
  constructor
  · rintro (⟨isMantissa, isExponent⟩ | ⟨isRadix, run⟩)
    · cases isExponent with
      | none =>
          rw [List.append_nil]
          cases isMantissa with
          | whole run => exact .inl ⟨_, .decimal run⟩
          | pointed run => exact .inr ⟨_, .pointed run⟩
      | power isMark isSign run =>
          obtain ⟨mantissa, body⟩ := isMantissa.value
          obtain ⟨power, exponent⟩ := powerValue_of_parts isMark isSign run
          exact .inr ⟨_, .scaled body exponent⟩
    · exact .inl ⟨_, .hexadecimal isRadix run⟩
  · rintro (⟨number, whole⟩ | ⟨value, fraction⟩)
    · cases whole with
      | decimal run => simpa using IsNumeral.decimal (.whole run) .none
      | hexadecimal isRadix run => exact .hexadecimal isRadix run
    · cases fraction with
      | pointed run => simpa using IsNumeral.decimal (.pointed run) .none
      | scaled body exponent => exact .decimal body.isMantissa exponent.isExponent

theorem IsWhole.not_fractional {text : String} {number : Nat}
    (whole : IsWhole text.toList number) : Literal.isFractional text = false := by
  generalize same : text.toList = characters at whole
  cases whole with
  | decimal run =>
      have point : '.' ∉ characters := fun member => absurd (run.2 _ member) (by decide)
      have marks := isFractional_decimal (.whole run) .none
      simp only [List.append_nil, ne_eq, not_true_eq_false, or_false, point, iff_false] at marks
      simpa [← same] using marks
  | hexadecimal isRadix =>
      simp only [List.mem_cons, List.not_mem_nil, or_false] at isRadix
      rcases isRadix with rfl | rfl <;> simp [Literal.isFractional, same, Literal.hexDigits?]

theorem IsFraction.fractional {text : String} {value : ℚ}
    (fraction : IsFraction text.toList value) : Literal.isFractional text = true := by
  generalize same : text.toList = characters at fraction
  obtain rfl : text = String.ofList characters := by simp [← same]
  cases fraction with
  | @pointed whole digits run =>
      have marks := isFractional_decimal (.pointed run) .none
      simpa using marks
  | scaled body exponent =>
      refine (isFractional_decimal body.isMantissa exponent.isExponent).mpr (.inr ?_)
      cases exponent <;> simp

/-! Reading digits. -/

theorem positional_append (base : Nat) (first second : List Char) :
    positional base (first ++ second) =
      positional base first * base ^ second.length + positional base second := by
  simp only [positional, List.reverse_append, List.map_append, Nat.ofDigits_append,
    List.length_map, List.length_reverse]
  ring

theorem positional_cons (base : Nat) (c : Char) (digits : List Char) :
    positional base (c :: digits) =
      digitValue c * base ^ digits.length + positional base digits := by
  have first := positional_append base [c] digits
  simpa [positional, Nat.ofDigits_cons] using first

theorem hexDigit_ascii {c : Char} (digit : isHexDigit c = true) : c.toNat < 128 := by
  simp only [isHexDigit, Char.isDigit, Char.le_def, UInt32.le_iff_toNat_le, Bool.or_eq_true,
    Bool.and_eq_true, decide_eq_true_eq] at digit
  have code : c.toNat = c.val.toNat := rfl
  have nine : '9'.val.toNat = 57 := rfl
  have lower : 'f'.val.toNat = 102 := rfl
  have upper : 'F'.val.toNat = 70 := rfl
  grind

theorem hexDigitValue?_eq {c : Char} (digit : isHexDigit c = true) :
    Literal.hexDigitValue? c = some (digitValue c) := by
  have table : ∀ code < 128, isHexDigit (Char.ofNat code) = true →
      Literal.hexDigitValue? (Char.ofNat code) = some (digitValue (Char.ofNat code)) := by decide
  simpa using table c.toNat (hexDigit_ascii digit) (by simpa using digit)

theorem digitValue_of_digit {c : Char} (digit : c.isDigit = true) :
    c.toNat - '0'.toNat = digitValue c := by
  have found := hexDigitValue?_eq (c := c) (by simp [isHexDigit, digit])
  simpa [Literal.hexDigitValue?, digit] using found

theorem ofDigitChars_eq {digits : List Char} (all : ∀ c ∈ digits, c.isDigit = true) (high : Nat) :
    Nat.ofDigitChars 10 digits high = high * 10 ^ digits.length + positional 10 digits := by
  induction digits generalizing high with
  | nil => simp [positional]
  | cons c digits ih =>
      obtain ⟨digit, others⟩ := List.forall_mem_cons.mp all
      rw [Nat.ofDigitChars_cons, ih others, digitValue_of_digit digit, positional_cons,
        List.length_cons, Nat.pow_succ]
      ring

theorem hexValue?_eq {digits : List Char} (all : ∀ c ∈ digits, isHexDigit c = true) (high : Nat) :
    Literal.hexValue? high digits = some (high * 16 ^ digits.length + positional 16 digits) := by
  induction digits generalizing high with
  | nil => simp [Literal.hexValue?, positional]
  | cons c digits ih =>
      obtain ⟨digit, others⟩ := List.forall_mem_cons.mp all
      simp only [Literal.hexValue?, hexDigitValue?_eq digit, Option.bind_eq_bind, Option.bind_some,
        ih others, positional_cons, List.length_cons, Nat.pow_succ, Option.some.injEq]
      ring

theorem natural?_of_run {digits : List Char} (run : IsRun Char.isDigit digits) :
    Decimal.natural? digits = some (positional 10 digits) := by
  have all : digits.all Char.isDigit = true := List.all_eq_true.mpr run.2
  simp [Decimal.natural?, run.1, all, ofDigitChars_eq run.2]

theorem unsigned_of_run {inClass : Char → Bool} {digits : List Char} (run : IsRun inClass digits)
    (noSign : inClass '+' = false) : Literal.unsigned digits = digits := by
  obtain ⟨d, digits, rfl⟩ := List.exists_cons_of_ne_nil run.1
  have other : d ≠ '+' := by
    rintro rfl
    exact absurd (run.2 '+' (by simp)) (by simp [noSign])
  simp [Literal.unsigned, other]

theorem magnitude?_of_whole {text : String} {number : Nat} (whole : IsWhole text.toList number) :
    Literal.magnitude? text = if number < 2 ^ 64 then some number else none := by
  have kept : (some number).filter (fun value => value < Nat.pow 2 64) =
      if number < 2 ^ 64 then some number else none := by
    simp [Option.filter_some]
  rw [← kept, Literal.magnitude?]
  clear kept
  generalize same : text.toList = characters at whole
  cases whole with
  | decimal run =>
      have plain := decimal_not_hexadecimal (.whole run) .none
      rw [List.append_nil] at plain
      simp only [plain, unsigned_of_run run (by decide), natural?_of_run run]
  | hexadecimal isRadix run =>
      have plain := unsigned_of_run run (by decide)
      have read := hexValue?_eq run.2 0
      simp only [Nat.zero_mul, Nat.zero_add] at read
      simp only [List.mem_cons, List.not_mem_nil, or_false] at isRadix
      rcases isRadix with rfl | rfl <;> simp [Literal.hexDigits?, plain, run.1, read]

/-! Reading fractions. -/

theorem splitSign_of_run {digits : List Char} (run : IsRun Char.isDigit digits) :
    Decimal.splitSign digits = (false, digits) := by
  obtain ⟨d, digits, rfl⟩ := List.exists_cons_of_ne_nil run.1
  have digit := run.2 d (by simp)
  have noSign : d ≠ '-' ∧ d ≠ '+' := by
    constructor <;> rintro rfl <;> exact absurd digit (by decide)
  simp [Decimal.splitSign, noSign]

theorem exponent?_of_power {exponent : List Char} {power : ℤ} (value : PowerValue exponent power) :
    Decimal.exponent? exponent = some power := by
  cases value with
  | @up mark sign digits isMark isSign run =>
      simp only [List.mem_cons, List.not_mem_nil, or_false] at isMark isSign
      have unsigned : Decimal.splitSign (sign ++ digits) = (false, digits) := by
        rcases isSign with rfl | rfl
        · exact splitSign_of_run run
        · rfl
      rcases isMark with rfl | rfl <;> simp [Decimal.exponent?, unsigned, natural?_of_run run]
  | down isMark run =>
      simp only [List.mem_cons, List.not_mem_nil, or_false] at isMark
      rcases isMark with rfl | rfl <;>
        simp [Decimal.exponent?, Decimal.splitSign, natural?_of_run run]

theorem PowerValue.stops {exponent : List Char} {power : ℤ} (value : PowerValue exponent power) :
    ∀ c ∈ exponent.head?, c.isDigit = false ∧ c ≠ '.' := by
  have marks (mark : Char) (isMark : mark ∈ ['e', 'E']) : mark.isDigit = false ∧ mark ≠ '.' := by
    simp only [List.mem_cons, List.not_mem_nil, or_false] at isMark
    rcases isMark with rfl | rfl <;> decide
  cases value with
  | up isMark => simpa using marks _ isMark
  | down isMark => simpa using marks _ isMark

theorem splitPoint_of_mantissa {body exponent : List Char} {mantissa : ℚ}
    (value : MantissaValue body mantissa)
    (stops : ∀ c ∈ exponent.head?, c.isDigit = false ∧ c ≠ '.') :
    ∃ whole fraction, IsRun Char.isDigit (whole ++ fraction) ∧
      Decimal.splitPoint (body ++ exponent) = (whole, fraction, exponent) ∧
      mantissa = positional 10 (whole ++ fraction) / 10 ^ fraction.length := by
  have noDigit (c : Char) (head : c ∈ exponent.head?) := (stops c head).1
  have noPoint (others : List Char) : exponent ≠ '.' :: others := by
    rintro rfl
    exact (stops '.' rfl).2 rfl
  cases value with
  | whole run =>
      refine ⟨body, [], by simpa using run, ?_, by simp⟩
      simp only [Decimal.splitPoint, takeWhile_run run.2 noDigit, dropWhile_run run.2 noDigit]
  | @pointed whole fraction run =>
      have inWhole : ∀ c ∈ whole, c.isDigit = true := fun c member => run.2 c (by simp [member])
      have inFraction : ∀ c ∈ fraction, c.isDigit = true :=
        fun c member => run.2 c (by simp [member])
      have point : ∀ c ∈ ('.' :: (fraction ++ exponent)).head?, c.isDigit = false := by
        rintro _ ⟨⟩
        rfl
      refine ⟨whole, fraction, run, ?_, ?_⟩
      · rw [List.append_assoc, List.cons_append]
        simp only [Decimal.splitPoint, takeWhile_run inWhole point, dropWhile_run inWhole point,
          takeWhile_run inFraction noDigit, dropWhile_run inFraction noDigit]
      · rw [pointed, positional_append]
        push_cast
        field_simp

theorem splitSign_of_mantissa {body : List Char} (isMantissa : IsMantissa body)
    (rest : List Char) : Decimal.splitSign (body ++ rest) = (false, body ++ rest) := by
  obtain ⟨c, body, rfl⟩ := List.exists_cons_of_ne_nil isMantissa.ne_nil
  have character := mantissa_characters isMantissa c (by simp)
  have noSign : c ≠ '-' ∧ c ≠ '+' := by
    constructor <;> rintro rfl <;> exact absurd character (by decide)
  simp [Decimal.splitSign, noSign]

theorem read?_of_parts {body exponent : List Char} {mantissa : ℚ} {power : ℤ}
    (value : MantissaValue body mantissa)
    (stops : ∀ c ∈ exponent.head?, c.isDigit = false ∧ c ≠ '.')
    (raised : Decimal.exponent? exponent = some power) :
    ∃ decimal : Decimal, Decimal.read? (body ++ exponent) = some (false, decimal) ∧
      decimal.value = mantissa * 10 ^ power := by
  obtain ⟨whole, fraction, run, split, same⟩ := splitPoint_of_mantissa value stops
  refine ⟨⟨positional 10 (whole ++ fraction), power - fraction.length⟩, ?_, ?_⟩
  · simp [Decimal.read?, splitSign_of_mantissa value.isMantissa, split, natural?_of_run run, raised]
  · rw [Decimal.value, same, zpow_sub₀ (by norm_num), zpow_natCast]
    ring

theorem read?_of_fraction {text : List Char} {value : ℚ} (fraction : IsFraction text value) :
    ∃ decimal : Decimal, Decimal.read? text = some (false, decimal) ∧ decimal.value = value := by
  cases fraction with
  | pointed run =>
      have stops : ∀ c ∈ ([] : List Char).head?, c.isDigit = false ∧ c ≠ '.' := by simp
      have read := read?_of_parts (.pointed run) stops rfl
      simpa using read
  | scaled body exponent =>
      exact read?_of_parts body exponent.stops (exponent?_of_power exponent)

theorem read?_of_numeral {text : String} (isNumeral : IsNumeral text.toList)
    (fractional : Literal.isFractional text = true) :
    (Decimal.read? text.toList).isSome = true := by
  rcases isNumeral_iff.mp isNumeral with ⟨number, whole⟩ | ⟨value, fraction⟩
  · simp [whole.not_fractional] at fractional
  · obtain ⟨decimal, read, _⟩ := read?_of_fraction fraction
    simp [read]

end Scanner

end ScalarC
