import ScalarC.Binary.Format
import ScalarC.Decimal

/-!
Doubles: a sign and a code of the 64-bit format. Conversions round to nearest,
ties to even; equality is the arithmetic one, where the two zeros are equal and
what is not a number differs from itself.
-/

namespace ScalarC

structure Binary64 where
  negative : Bool
  code : Nat
  code_lt : code < Nat.pow 2 63
  deriving DecidableEq

namespace Binary64

def ofBits (bits : Nat) : Binary64 :=
  ⟨bits / Nat.pow 2 63 % 2 = 1, bits % Nat.pow 2 63, Nat.mod_lt _ (by decide)⟩

def toBits (value : Binary64) : Nat :=
  (if value.negative then Nat.pow 2 63 else 0) + value.code

def isFinite (value : Binary64) : Bool := value.code < Format.binary64.infinity

def isNaN (value : Binary64) : Bool := Format.binary64.infinity < value.code

def isZero (value : Binary64) : Bool := value.code = 0

def negate (value : Binary64) : Binary64 := { value with negative := !value.negative }

def equals (first second : Binary64) : Bool :=
  !first.isNaN && !second.isNaN &&
    (first.isZero && second.isZero ||
      first.negative = second.negative && first.code = second.code)

theorem nearest_lt (numerator denominator : Nat) :
    Format.binary64.nearest numerator denominator < Nat.pow 2 63 :=
  Nat.lt_of_le_of_lt (Format.nearest_le_infinity _ _ _) (by decide)

def ofRatio (negative : Bool) (numerator denominator : Nat) : Binary64 :=
  ⟨negative, Format.binary64.nearest numerator denominator, nearest_lt _ _⟩

def zero (negative : Bool) : Binary64 := ⟨negative, 0, by decide⟩

def infinity (negative : Bool) : Binary64 :=
  ⟨negative, Format.binary64.infinity, by decide⟩

/-- The double nearest to an integer; the integer zero has no sign. -/
def ofInt (value : Int) : Binary64 := ofRatio (value < 0) value.natAbs 1

/-- The double nearest to a decimal. The first two cases lie so far outside the
range that the power of ten need not be computed. -/
def ofDecimal (negative : Bool) (decimal : Decimal) : Binary64 :=
  if decimal.coefficient = 0 then zero negative
  else if 400 ≤ decimal.exponent then infinity negative
  else if decimal.exponent + decimal.coefficient.log2 < -400 then zero negative
  else ofRatio negative decimal.numerator decimal.denominator

/-- Whether a double, rounded once more to the 32-bit format, is finite there. -/
def isFinite32 (value : Binary64) : Bool :=
  value.isFinite &&
    Format.binary32.nearest (Format.binary64.steps value.code) Format.binary64.unit
      < Format.binary32.infinity

end Binary64

end ScalarC
