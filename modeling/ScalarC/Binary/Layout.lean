import ScalarC.Binary.Shortest

/-!
The written form of a finite double: its shortest digits, positional while the
power of ten of the leading digit lies in a range, and in scientific notation
outside it. A positional form always has a fraction and a scientific one an
exponent, so neither can be taken for an integer.
-/

namespace ScalarC

/-- What one writer of doubles decides: the least and greatest leading powers
that are written positionally, the sign of a positive exponent, and which of two
equally near decimals is taken. -/
structure Layout where
  least : Int
  greatest : Int
  plus : String
  tie : Binary64.Tie

namespace Layout

def zeros (count : Nat) : List Char := List.replicate count '0'

/-- Digits with a point `exponent` places from their end, or zeros instead. -/
def positional (digits : List Char) (exponent : Int) : List Char :=
  if 0 ≤ exponent then digits ++ zeros exponent.toNat ++ ['.', '0']
  else
    let places := (-exponent).toNat
    if places < digits.length then
      digits.take (digits.length - places) ++ '.' :: digits.drop (digits.length - places)
    else '0' :: '.' :: zeros (places - digits.length) ++ digits

def signedPower (layout : Layout) (power : Int) : List Char :=
  if power < 0 then '-' :: Nat.toDigits 10 power.natAbs
  else layout.plus.toList ++ Nat.toDigits 10 power.natAbs

def scientific (layout : Layout) (digits : List Char) (power : Int) : List Char :=
  let fraction := digits.drop 1
  let point := if fraction.isEmpty then [] else '.' :: fraction
  digits.take 1 ++ point ++ 'e' :: layout.signedPower power

def decimal (layout : Layout) (value : Decimal) : List Char :=
  let digits := Nat.toDigits 10 value.coefficient
  let power := value.exponent + digits.length - 1
  if layout.least ≤ power ∧ power ≤ layout.greatest then positional digits value.exponent
  else layout.scientific digits power

/-- The text of a finite double; zero keeps its sign. -/
def text (layout : Layout) (value : Binary64) : String :=
  let magnitude :=
    if value.isZero then ['0', '.', '0']
    else layout.decimal (Binary64.shortest layout.tie value.code)
  String.ofList (if value.negative then '-' :: magnitude else magnitude)

end Layout

end ScalarC
