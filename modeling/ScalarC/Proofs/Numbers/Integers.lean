import ScalarC.Proofs.Numbers.Denotation

/-!
Integer literals are exact. A numeral without a point and an exponent has its
own number at an integer type, with the sign in front of it, or none if that lies
outside of the type; a numeral with one of them has none.
-/

namespace ScalarC

def DataType.width : DataType → Nat
  | i32 | f32 => 32
  | i64 | f64 => 64

/-- Whether an integer has a two's complement form in the bits of a type. -/
def DataType.Holds (type : DataType) (value : Int) : Prop :=
  -2 ^ (type.width - 1) ≤ value ∧ value < 2 ^ (type.width - 1)

instance (type : DataType) (value : Int) : Decidable (type.Holds value) :=
  inferInstanceAs (Decidable (_ ∧ _))

namespace Literal

/-- The number of a literal whose spelling stands for `number`. -/
def signed (negative : Bool) (number : Nat) : Int := if negative then -number else number

theorem integerBounds?_eq {type : DataType} (isInteger : type.isInteger = true) :
    ∃ least greatest, integerBounds? type = some (least, greatest) ∧
      ∀ value, type.Holds value ↔ least ≤ value ∧ value ≤ greatest := by
  cases type with
  | i32 =>
      refine ⟨_, _, rfl, fun value => ?_⟩
      simp only [DataType.Holds, DataType.width]
      omega
  | i64 =>
      refine ⟨_, _, rfl, fun value => ?_⟩
      simp only [DataType.Holds, DataType.width]
      omega
  | f32 | f64 => cases isInteger

theorem lt_of_holds {type : DataType} {negative : Bool} {number : Nat}
    (holds : type.Holds (signed negative number)) : number < 2 ^ 64 := by
  have width : (2 : Int) ^ (type.width - 1) < 2 ^ 64 := by cases type <;> decide
  simp only [DataType.Holds, signed] at holds
  split at holds <;> omega

theorem value_of_whole {type : DataType} (isInteger : type.isInteger = true) {text : String}
    {number : Nat} (whole : Scanner.IsWhole text.toList number) (negative : Bool)
    (place : Location) :
    value ⟨text, negative, place⟩ type =
      if type.Holds (signed negative number) then .ok (.int (signed negative number))
      else .error (.typeMismatch
        (.literalOutOfRange (signedText ⟨text, negative, place⟩) type) place) := by
  obtain ⟨least, greatest, bounds, holds⟩ := integerBounds?_eq isInteger
  simp only [value, whole.not_fractional, Bool.false_eq_true, ↓reduceIte, integerValue,
    Scanner.magnitude?_of_whole whole, bounds]
  by_cases small : number < 2 ^ 64
  · simp only [small, ↓reduceIte, holds, signed]
  · have outside : ¬ type.Holds (signed negative number) := mt lt_of_holds small
    simp only [small, ↓reduceIte, outside]

theorem value_of_fraction {type : DataType} (isInteger : type.isInteger = true) {text : String}
    {number : ℚ} (fraction : Scanner.IsFraction text.toList number) (negative : Bool)
    (place : Location) :
    value ⟨text, negative, place⟩ type =
      .error (.typeMismatch (.literalNotOfType text type) place) := by
  simp [value, fraction.fractional, fractionalValue, isInteger]

end Literal

/-- At an integer type a literal has the number its digits stand for, in either base and of any
length, if the type holds it, and otherwise is of no use there. A fraction or an exponent is of
none either, and no hexadecimal digit is taken for one. -/
theorem integer_literal_exact {type : DataType} (isInteger : type.isInteger = true) (text : String)
    (negative : Bool) (place : Location) :
    (∀ number, Scanner.IsWhole text.toList number →
      Literal.isFractional text = false ∧
      (type.Holds (Literal.signed negative number) →
        Literal.value ⟨text, negative, place⟩ type =
          .ok (.int (Literal.signed negative number))) ∧
      (¬ type.Holds (Literal.signed negative number) →
        ∃ fault, Literal.value ⟨text, negative, place⟩ type =
          .error (.typeMismatch fault place))) ∧
    (∀ number, Scanner.IsFraction text.toList number →
      ∃ fault, Literal.value ⟨text, negative, place⟩ type =
        .error (.typeMismatch fault place)) ∧
    (Scanner.IsNumeral text.toList ↔ (∃ number, Scanner.IsWhole text.toList number) ∨
      ∃ number, Scanner.IsFraction text.toList number) := by
  refine ⟨fun number whole => ⟨whole.not_fractional, fun holds => ?_, fun outside => ?_⟩,
    fun number fraction => ⟨_, Literal.value_of_fraction isInteger fraction negative place⟩,
    Scanner.isNumeral_iff⟩
  · rw [Literal.value_of_whole isInteger whole, if_pos holds]
  · exact ⟨_, by rw [Literal.value_of_whole isInteger whole, if_neg outside]⟩

theorem integer_literal_extremes :
    Literal.value ⟨"2147483648", true, ⟨1, 1⟩⟩ .i32 = .ok (.int (-2147483648)) ∧
    Literal.value ⟨"0009223372036854775808", true, ⟨1, 1⟩⟩ .i64 =
      .ok (.int (-9223372036854775808)) ∧
    Literal.value ⟨"0X1e3E", false, ⟨1, 1⟩⟩ .i32 = .ok (.int 7742) ∧
    ∃ fault, Literal.value ⟨"2147483648", false, ⟨1, 1⟩⟩ .i32 =
      .error (.typeMismatch fault ⟨1, 1⟩) := by
  have half : Scanner.IsWhole "2147483648".toList 2147483648 := .decimal (by decide)
  have long : Scanner.IsWhole "0009223372036854775808".toList 9223372036854775808 :=
    .decimal (by decide)
  have hexadecimal : Scanner.IsWhole "0X1e3E".toList 7742 :=
    .hexadecimal (by decide : ['0', 'X'] ∈ _)
      (by decide : Scanner.IsRun Scanner.isHexDigit ['1', 'e', '3', 'E'])
  exact ⟨((integer_literal_exact rfl _ true ⟨1, 1⟩).1 _ half).2.1 (by decide),
    ((integer_literal_exact rfl _ true ⟨1, 1⟩).1 _ long).2.1 (by decide),
    ((integer_literal_exact rfl _ false ⟨1, 1⟩).1 _ hexadecimal).2.1 (by decide),
    ((integer_literal_exact rfl _ false ⟨1, 1⟩).1 _ half).2.2 (by decide)⟩

end ScalarC
