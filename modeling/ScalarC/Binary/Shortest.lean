import ScalarC.Binary.Binary64

/-!
The shortest decimal that reads back as a given double. Decimal grids are
searched from coarse to fine; on each, the neighbours of the value are tried,
and the first grid where one of them reads back wins. The exact expansion, which
every finite double has, stands behind the search.
-/

namespace ScalarC.Binary64

inductive Tie where
  | up
  | even
  deriving DecidableEq

def leadingExponent (steps : Nat) : Int :=
  let unit := Format.binary64.unit
  if unit ≤ steps then (Nat.toDigits 10 (steps / unit)).length - 1
  else -(Nat.toDigits 10 ((unit - 1) / steps)).length

def readsBack (code : Nat) (decimal : Decimal) : Bool :=
  (ofDecimal false decimal).code = code

/-- The neighbours of a code's value on the grid of one power of ten: of those
that read back, the nearer. -/
def onGrid (tie : Tie) (code : Nat) (exponent : Int) : Option Decimal :=
  let numerator := Format.binary64.steps code * Nat.pow 10 (-exponent).toNat
  let denominator := Format.binary64.unit * Nat.pow 10 exponent.toNat
  let below : Decimal := ⟨numerator / denominator, exponent⟩
  let above : Decimal := ⟨numerator / denominator + 1, exponent⟩
  let twice := 2 * (numerator % denominator)
  let upward :=
    denominator < twice ||
      twice = denominator && (tie = .up || below.coefficient % 2 = 1)
  match readsBack code below, readsBack code above with
  | true, true => some (if upward then above else below)
  | true, false => some below
  | false, true => some above
  | false, false => none

def exact (code : Nat) : Decimal :=
  ⟨Format.binary64.steps code * Nat.pow 5 Format.binary64.stepExponent,
    -Format.binary64.stepExponent⟩

def search (tie : Tie) (code : Nat) (exponent : Int) : Nat → Decimal
  | 0 => exact code
  | grids + 1 => (onGrid tie code exponent).getD (search tie code (exponent - 1) grids)

/-- The decimal with the fewest digits that reads back as a positive finite
code; seventeen digits always do. -/
def shortest (tie : Tie) (code : Nat) : Decimal :=
  search tie code (leadingExponent (Format.binary64.steps code) + 1) 18

end ScalarC.Binary64
