import ScalarC.Node.Basic
import ScalarC.ParseError

/-!
Number literals and their values. A literal keeps its spelling until its type is
known. Integer spellings fit every type; a fraction or an exponent fits only the
floating-point types. An integer spelling is read as a whole number below
`2 ^ 64`, for the floating-point types too.
-/

namespace ScalarC

structure Literal where
  text : String
  negative : Bool
  location : Location
  deriving DecidableEq

namespace Literal

def hexDigits? : List Char → Option (List Char)
  | '0' :: 'x' :: digits => some digits
  | '0' :: 'X' :: digits => some digits
  | _ => none

/-- Whether a spelling has a fraction or an exponent; `e` is a digit in a
hexadecimal one. -/
def isFractional (text : String) : Bool :=
  (hexDigits? text.toList).isNone &&
    text.toList.any fun c => c = '.' || c = 'e' || c = 'E'

def hexDigitValue? (c : Char) : Option Nat :=
  if c.isDigit then some (c.toNat - '0'.toNat)
  else if 'a' ≤ c ∧ c ≤ 'f' then some (c.toNat - 'a'.toNat + 10)
  else if 'A' ≤ c ∧ c ≤ 'F' then some (c.toNat - 'A'.toNat + 10)
  else none

/-- The value of hexadecimal digits, read behind those whose value is `high`. -/
def hexValue? (high : Nat) : List Char → Option Nat
  | [] => some high
  | c :: rest => do hexValue? (16 * high + (← hexDigitValue? c)) rest

def unsigned : List Char → List Char
  | '+' :: digits => digits
  | digits => digits

/-- The whole number an integer spelling stands for, if it is below `2 ^ 64`. -/
def magnitude? (text : String) : Option Nat :=
  let whole := match hexDigits? text.toList with
    | some digits =>
        if (unsigned digits).isEmpty then none else hexValue? 0 (unsigned digits)
    | none => Decimal.natural? (unsigned text.toList)
  whole.filter fun value => value < Nat.pow 2 64

def signedText (literal : Literal) : String :=
  if literal.negative then "-" ++ literal.text else literal.text

/-- A double that is finite at `type`; a literal of type `f32` keeps its double. -/
def finite (literal : Literal) (type : DataType) (value : Binary64) :
    Except ParseError NodeValue :=
  let fits := if type = .f32 then value.isFinite32 else value.isFinite
  if fits then .ok (.float value)
  else .error (.typeMismatch (.literalOutOfRange literal.text type) literal.location)

def fractionalValue (literal : Literal) (type : DataType) : Except ParseError NodeValue :=
  if type.isInteger then
    .error (.typeMismatch (.literalNotOfType literal.text type) literal.location)
  else match Decimal.read? literal.text.toList with
    | none => .error (.malformed (.malformedNumber literal.text) literal.location)
    | some (negative, decimal) =>
        let value := Binary64.ofDecimal negative decimal
        literal.finite type (if literal.negative then value.negate else value)

def integerBounds? : DataType → Option (Int × Int)
  | .i32 => some (-2147483648, 2147483647)
  | .i64 => some (-9223372036854775808, 9223372036854775807)
  | .f32 | .f64 => none

/-- The sign is applied before the range is checked, so the least integer of a
type can be written. -/
def integerValue (literal : Literal) (type : DataType) : Except ParseError NodeValue :=
  let outOfRange :=
    .error (.typeMismatch (.literalOutOfRange literal.signedText type) literal.location)
  match magnitude? literal.text with
  | none => outOfRange
  | some magnitude =>
      let value : Int := if literal.negative then -magnitude else magnitude
      match integerBounds? type with
      | some (least, greatest) =>
          if least ≤ value ∧ value ≤ greatest then .ok (.int value) else outOfRange
      | none => literal.finite type (Binary64.ofInt value)

def value (literal : Literal) (type : DataType) : Except ParseError NodeValue :=
  if isFractional literal.text then literal.fractionalValue type
  else literal.integerValue type

def node (literal : Literal) (type : DataType) : Except ParseError Node := do
  let value ← literal.value type
  return ⟨.number, some value, some type, []⟩

end Literal

end ScalarC
