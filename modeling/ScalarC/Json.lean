import ScalarC.Binary.Layout

/-!
JSON values and their text. Members keep the order they are given in. One writer
serves both forms: they differ only in the blanks put before an item and behind
a colon.
-/

namespace ScalarC

/-- A JSON value; a `float` is finite. -/
inductive Json where
  | null
  | int (value : Int)
  | float (value : Binary64)
  | string (text : String)
  | array (items : List Json)
  | object (members : List (String × Json))

namespace Json

/-- Doubles are positional from the fifth decimal place up to sixteen digits,
and the exponent of a large one has a plus sign. -/
def floatLayout : Layout := ⟨-5, 15, "+", .even⟩

def hexDigit (digit : Nat) : Char := Nat.digitChar digit

def escapeChar (c : Char) : List Char :=
  if c = '"' then ['\\', '"']
  else if c = '\\' then ['\\', '\\']
  else if c = '\x08' then ['\\', 'b']
  else if c = '\x0c' then ['\\', 'f']
  else if c = '\n' then ['\\', 'n']
  else if c = '\r' then ['\\', 'r']
  else if c = '\t' then ['\\', 't']
  else if c.toNat < 32 then
    ['\\', 'u', '0', '0', hexDigit (c.toNat / 16), hexDigit (c.toNat % 16)]
  else [c]

def quote (text : String) : List Char :=
  '"' :: text.toList.flatMap escapeChar ++ ['"']

/-- Blanks of a form: a line break before an item nested so deep, and the space
behind a colon. -/
structure Spacing where
  line : Nat → List Char
  colon : List Char

def Spacing.compact : Spacing := ⟨fun _ => [], []⟩

def Spacing.indented : Spacing := ⟨fun depth => '\n' :: List.replicate (2 * depth) ' ', [' ']⟩

mutual

/-- The text of a value nested so deep, in front of `rest`. Brackets around
nothing stand together. -/
def write (spacing : Spacing) (depth : Nat) : Json → List Char → List Char
  | .null, rest => "null".toList ++ rest
  | .int value, rest => Decimal.writeInt value ++ rest
  | .float value, rest => (floatLayout.text value).toList ++ rest
  | .string text, rest => quote text ++ rest
  | .array [], rest => '[' :: ']' :: rest
  | .array (first :: others), rest =>
      '[' :: (spacing.line (depth + 1) ++ write spacing (depth + 1) first
        (writeItems spacing (depth + 1) others (spacing.line depth ++ ']' :: rest)))
  | .object [], rest => '\x7b' :: '\x7d' :: rest
  | .object ((key, value) :: others), rest =>
      '\x7b' :: (spacing.line (depth + 1) ++ quote key ++ ':' :: spacing.colon ++
        write spacing (depth + 1) value
          (writeMembers spacing (depth + 1) others (spacing.line depth ++ '\x7d' :: rest)))
termination_by structural json => json

def writeItems (spacing : Spacing) (depth : Nat) : List Json → List Char → List Char
  | [], rest => rest
  | item :: others, rest =>
      ',' :: (spacing.line depth ++ write spacing depth item
        (writeItems spacing depth others rest))
termination_by structural items => items

def writeMembers (spacing : Spacing) (depth : Nat) :
    List (String × Json) → List Char → List Char
  | [], rest => rest
  | (key, value) :: others, rest =>
      ',' :: (spacing.line depth ++ quote key ++ ':' :: spacing.colon ++
        write spacing depth value (writeMembers spacing depth others rest))
termination_by structural members => members

end

def compact (json : Json) : String := String.ofList (write Spacing.compact 0 json [])

def pretty (json : Json) : String := String.ofList (write Spacing.indented 0 json [])

end Json

end ScalarC
