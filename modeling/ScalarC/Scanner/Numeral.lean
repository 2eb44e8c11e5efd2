import ScalarC.Scanner.Basic

/-!
Spellings of numbers: `0x` and hexadecimal digits, or decimal digits with an
optional point, fraction and exponent. The spelling is kept as it stands; its
value is decided where its type is known.
-/

namespace ScalarC.Scanner

def isHexDigit (c : Char) : Bool :=
  c.isDigit || ('a' ≤ c && c ≤ 'f') || ('A' ≤ c && c ≤ 'F')

def isWordCharacter (c : Char) : Bool := c.isAlphanum || c = '_'

def mantissa (text : List Char) : List Char × List Char :=
  let whole := text.takeWhile Char.isDigit
  match text.dropWhile Char.isDigit with
  | '.' :: rest => (whole ++ '.' :: rest.takeWhile Char.isDigit, rest.dropWhile Char.isDigit)
  | rest => (whole, rest)

/-- The letter that opens an exponent, with its sign. -/
def exponentMark : List Char → Option (List Char × List Char)
  | mark :: rest =>
      if mark = 'e' || mark = 'E' then
        match rest with
        | sign :: digits =>
            if sign = '+' || sign = '-' then some ([mark, sign], digits)
            else some ([mark], rest)
        | [] => some ([mark], [])
      else none
  | [] => none

/-- A decimal spelling is complete unless a word character follows. -/
def complete (taken rest : List Char) : Reading :=
  match rest with
  | next :: _ =>
      if isWordCharacter next then
        ⟨.error (.numberRunsOn (String.ofList taken) next), taken, rest⟩
      else ⟨.ok .number, taken, rest⟩
  | [] => ⟨.ok .number, taken, rest⟩

def decimal (text : List Char) : Reading :=
  let (body, rest) := mantissa text
  match exponentMark rest with
  | some (mark, rest) =>
      let digits := rest.takeWhile Char.isDigit
      if digits.isEmpty then
        ⟨.error (.exponentWithoutDigits (String.ofList (body ++ mark))), body ++ mark, rest⟩
      else complete (body ++ mark ++ digits) (rest.dropWhile Char.isDigit)
  | none => complete body rest

/-- `radix` is the `0x` in front; a word character may follow the digits. -/
def hexadecimal (radix text : List Char) : Reading :=
  let digits := text.takeWhile isHexDigit
  let taken := radix ++ digits
  if digits.isEmpty then
    ⟨.error (.hexWithoutDigits (String.ofList taken)), taken, text.dropWhile isHexDigit⟩
  else ⟨.ok .number, taken, text.dropWhile isHexDigit⟩

def numeral (text : List Char) : Reading :=
  match text with
  | '0' :: 'x' :: rest => hexadecimal ['0', 'x'] rest
  | '0' :: 'X' :: rest => hexadecimal ['0', 'X'] rest
  | _ => decimal text

/-- A digit, or a point directly before a digit, starts a number. -/
def startsNumber (c : Char) (rest : List Char) : Bool :=
  c.isDigit || c = '.' && rest.head?.any Char.isDigit

theorem mantissa_append (text : List Char) :
    (mantissa text).1 ++ (mantissa text).2 = text := by
  have split := List.takeWhile_append_dropWhile (p := Char.isDigit) (l := text)
  unfold mantissa
  split
  · next rest point => simpa [point] using split
  · exact split

theorem exponentMark_append {text mark rest : List Char}
    (found : exponentMark text = some (mark, rest)) : mark ++ rest = text := by
  unfold exponentMark at found
  grind

@[simp] theorem complete_taken (taken rest : List Char) : (complete taken rest).taken = taken := by
  unfold complete
  grind

@[simp] theorem complete_rest (taken rest : List Char) : (complete taken rest).rest = rest := by
  unfold complete
  grind

theorem decimal_append (text : List Char) :
    (decimal text).taken ++ (decimal text).rest = text := by
  have split := mantissa_append text
  unfold decimal
  cases found : exponentMark (mantissa text).2 with
  | none => simpa [found] using split
  | some pair =>
      have marked := exponentMark_append found
      simp only [found]
      split
      · simpa [marked] using split
      · simp [marked, split]

theorem hexadecimal_append (radix text : List Char) :
    (hexadecimal radix text).taken ++ (hexadecimal radix text).rest = radix ++ text := by
  unfold hexadecimal
  simp only
  split <;> simp

theorem numeral_append (text : List Char) :
    (numeral text).taken ++ (numeral text).rest = text := by
  unfold numeral
  split <;> simp [hexadecimal_append, decimal_append]

theorem mantissa_ne_nil {c : Char} {rest : List Char} (starts : startsNumber c rest) :
    (mantissa (c :: rest)).1 ≠ [] := by
  unfold mantissa
  by_cases digit : c.isDigit
  · simp only [List.takeWhile_cons, digit, List.dropWhile_cons]
    split <;> simp
  · have point : c = '.' := by simp [startsNumber, digit] at starts; exact starts.1
    subst point
    simp [digit]

theorem decimal_taken (text : List Char) :
    ∃ exponent, (decimal text).taken = (mantissa text).1 ++ exponent := by
  unfold decimal
  cases found : exponentMark (mantissa text).2 with
  | none => exact ⟨[], by simp [found]⟩
  | some pair =>
      simp only [found]
      split
      · exact ⟨pair.1, rfl⟩
      · exact ⟨pair.1 ++ pair.2.takeWhile Char.isDigit, by simp⟩

theorem numeral_taken_ne_nil {c : Char} {rest : List Char} (starts : startsNumber c rest) :
    (numeral (c :: rest)).taken ≠ [] := by
  unfold numeral
  split
  · unfold hexadecimal; simp only; split <;> simp
  · unfold hexadecimal; simp only; split <;> simp
  · obtain ⟨exponent, taken⟩ := decimal_taken (c :: rest)
    simp [taken, mantissa_ne_nil starts]

end ScalarC.Scanner
