import ScalarC.Json
import ScalarC.Literal
import ScalarC.Proofs.Numbers.Forms

/-!
A reader of JSON texts. It skips blanks between the parts, takes every escape of
a string, and tells integers from doubles by their form. Nothing stands for a
text it refuses; truth values are among these, as no value here is one. The
bound of a reader is the number of values it may go through.
-/

namespace ScalarC.Json

/-- Reads something at the front of a text and gives what follows it. -/
abbrev Reader (α : Type) := List Char → Option (α × List Char)

def isBlank (c : Char) : Bool := c = ' ' || c = '\n' || c = '\r' || c = '\t'

def skipBlanks (text : List Char) : List Char := text.dropWhile isBlank

/-! Strings. -/

def unescaped? : Char → Option Char
  | '"' => some '"'
  | '\\' => some '\\'
  | '/' => some '/'
  | 'b' => some '\x08'
  | 'f' => some '\x0c'
  | 'n' => some '\n'
  | 'r' => some '\r'
  | 't' => some '\t'
  | _ => none

def unit? : Reader Nat
  | a :: b :: c :: d :: rest => (Literal.hexValue? 0 [a, b, c, d]).map fun unit => (unit, rest)
  | _ => none

def lowUnit? : Reader Nat
  | '\\' :: 'u' :: text => (unit? text).filter fun (unit, _) => 0xDC00 ≤ unit && unit < 0xE000
  | _ => none

/-- What stands behind a backslash. A character behind the basic plane is a pair of units. -/
def escape? : Reader Char
  | 'u' :: text => do
      let (unit, behind) ← unit? text
      if 0xD800 ≤ unit ∧ unit < 0xDC00 then
        let (low, rest) ← lowUnit? behind
        return (Char.ofNat (0x10000 + (unit - 0xD800) * 0x400 + (low - 0xDC00)), rest)
      else if unit.isValidChar then return (Char.ofNat unit, behind)
      else none
  | mark :: rest => (unescaped? mark).map fun c => (c, rest)
  | [] => none

def character? : Reader Char
  | '\\' :: rest => escape? rest
  | c :: rest => if c.toNat < 32 || c = '"' then none else some (c, rest)
  | [] => none

def characters? : Nat → Reader (List Char)
  | 0, _ => none
  | bound + 1, text =>
      if text.head? = some '"' then some ([], text.tail)
      else do
        let (c, behind) ← character? text
        let (others, rest) ← characters? bound behind
        return (c :: others, rest)

def string? : Reader String
  | '"' :: text => do
      let (characters, rest) ← characters? text.length text
      return (String.ofList characters, rest)
  | _ => none

/-! Numbers. -/

/-- A number with a fraction or a power is a double, which has to be finite. -/
def ofForm? (form : Decimal.Form) : Option Json :=
  if form.isFractional then
    if form.double.isFinite then some (.float form.double) else none
  else some (.int form.integer)

def number? : Reader Json := fun text => do
  let (form, rest) ← Decimal.Form.read? text
  let number ← ofForm? form
  return (number, rest)

/-! Values. -/

section Lists

variable {α : Type} (close : Char) (element? : Reader α)

def further? : Nat → Reader (List α)
  | 0, _ => none
  | bound + 1, text =>
      match skipBlanks text with
      | [] => none
      | mark :: rest =>
          if mark = close then some ([], rest)
          else if mark = ',' then do
            let (element, behind) ← element? rest
            let (others, rest) ← further? bound behind
            return (element :: others, rest)
          else none

def elements? (bound : Nat) : Reader (List α) := fun text =>
  match skipBlanks text with
  | [] => none
  | mark :: rest =>
      if mark = close then some ([], rest)
      else do
        let (first, behind) ← element? text
        let (others, rest) ← further? close element? bound behind
        return (first :: others, rest)

end Lists

def member? (value? : Reader Json) : Reader (String × Json) := fun text => do
  let (key, behind) ← string? (skipBlanks text)
  match skipBlanks behind with
  | ':' :: text =>
      let (value, rest) ← value? text
      return ((key, value), rest)
  | _ => none

def value? : Nat → Reader Json
  | 0, _ => none
  | bound + 1, text =>
      match skipBlanks text with
      | '[' :: text => do
          let (items, rest) ← elements? ']' (value? bound) bound text
          return (.array items, rest)
      | '\x7b' :: text => do
          let (members, rest) ← elements? '\x7d' (member? (value? bound)) bound text
          return (.object members, rest)
      | '"' :: text => do
          let (text, rest) ← string? ('"' :: text)
          return (.string text, rest)
      | 'n' :: 'u' :: 'l' :: 'l' :: rest => some (.null, rest)
      | text => number? text

def ofText? (text : String) : Option Json := do
  let (value, rest) ← value? text.length text.toList
  if skipBlanks rest = [] then some value else none

end ScalarC.Json
