/-!
Binary floating-point formats. The finite magnitudes of a format are whole
multiples of its least positive one, so a magnitude is a number of steps. A code
holds the exponent field above the fraction field; codes are ordered like the
magnitudes they stand for, and the code behind the largest finite one stands
for infinity.
-/

namespace ScalarC

/-- One step is `2 ^ -stepExponent`; `exponentLimit` is the first exponent field
that is not finite. -/
structure Format where
  fractionBits : Nat
  stepExponent : Nat
  exponentLimit : Nat

namespace Format

def binary32 : Format := ⟨23, 149, 255⟩

def binary64 : Format := ⟨52, 1074, 2047⟩

/-- How many codes share an exponent field. -/
def binade (format : Format) : Nat := Nat.pow 2 format.fractionBits

def infinity (format : Format) : Nat := format.exponentLimit * format.binade

/-- Steps in one. -/
def unit (format : Format) : Nat := Nat.pow 2 format.stepExponent

/-- The magnitude a finite code stands for, in steps. The leading bit of the
significand is not written, except that exponent field zero has none. -/
def steps (format : Format) (code : Nat) : Nat :=
  let exponent := code / format.binade
  let fraction := code % format.binade
  if exponent = 0 then fraction
  else (format.binade + fraction) * Nat.pow 2 (exponent - 1)

/-- The whole number nearest to a quotient; a tie goes to the even one. -/
def roundToEven (numerator denominator : Nat) : Nat :=
  let quotient := numerator / denominator
  let twice := 2 * (numerator % denominator)
  if twice < denominator then quotient
  else if denominator < twice then quotient + 1
  else quotient + quotient % 2

/-- The code of the magnitude nearest to a quotient. The significand is rounded
at the place its size asks for; when it rounds up to the next power of two, the
sum carries into the exponent field, and past the largest finite code lies
infinity. -/
def nearest (format : Format) (numerator denominator : Nat) : Nat :=
  let scaled := numerator * format.unit
  let shift := (scaled / denominator).log2 - format.fractionBits
  let code := shift * format.binade + roundToEven scaled (denominator * Nat.pow 2 shift)
  min code format.infinity

theorem nearest_le_infinity (format : Format) (numerator denominator : Nat) :
    format.nearest numerator denominator ≤ format.infinity :=
  Nat.min_le_right _ _

end Format

end ScalarC
