/-!
Decimal numbers: a natural coefficient times a power of ten. `read?` takes the
written form: a sign, digits with a point among or beside them, and a power of
ten behind `e`. At least one digit stands before the exponent, and one in it.
-/

namespace ScalarC

structure Decimal where
  coefficient : Nat
  exponent : Int
  deriving DecidableEq

namespace Decimal

def numerator (decimal : Decimal) : Nat :=
  decimal.coefficient * Nat.pow 10 decimal.exponent.toNat

def denominator (decimal : Decimal) : Nat := Nat.pow 10 (-decimal.exponent).toNat

def splitSign : List Char → Bool × List Char
  | '-' :: rest => (true, rest)
  | '+' :: rest => (false, rest)
  | rest => (false, rest)

def natural? (text : List Char) : Option Nat :=
  if text.isEmpty || !text.all Char.isDigit then none else some (Nat.ofDigitChars 10 text 0)

/-- The power of ten behind the mantissa; nothing stands for zero. -/
def exponent? : List Char → Option Int
  | [] => some 0
  | mark :: rest =>
      if mark = 'e' || mark = 'E' then
        let (negative, digits) := splitSign rest
        (natural? digits).map fun power => if negative then -power else power
      else none

def splitPoint (text : List Char) : List Char × List Char × List Char :=
  let whole := text.takeWhile Char.isDigit
  match text.dropWhile Char.isDigit with
  | '.' :: rest => (whole, rest.takeWhile Char.isDigit, rest.dropWhile Char.isDigit)
  | rest => (whole, [], rest)

/-- The number a text stands for, and whether it has a minus sign. -/
def read? (text : List Char) : Option (Bool × Decimal) := do
  let (negative, unsigned) := splitSign text
  let (whole, fraction, rest) := splitPoint unsigned
  let coefficient ← natural? (whole ++ fraction)
  let power ← exponent? rest
  return (negative, ⟨coefficient, power - fraction.length⟩)

def writeInt (value : Int) : List Char :=
  let digits := Nat.toDigits 10 value.natAbs
  if value < 0 then '-' :: digits else digits

end Decimal

end ScalarC
