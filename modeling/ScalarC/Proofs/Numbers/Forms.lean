import Mathlib.Data.List.Basic
import ScalarC.Binary.Layout
import ScalarC.Proofs.Numbers.Exact
import ScalarC.Proofs.Spelling.Numerals

/-!
The written form of a number, part by part: a sign, digits in front of the point
and behind it, and a power of ten. Every writer of numbers writes such a form; a
reader gets the parts back from the text, and the number from the parts.
-/

namespace ScalarC

open Scanner (IsRun takeWhile_run dropWhile_run)

namespace Decimal

/-- A part that is not written is empty. The sign is the one of the power. -/
structure Form where
  negative : Bool
  whole : List Char
  fraction : List Char
  sign : List Char
  power : List Char
  deriving DecidableEq

/-- Digits with no zero in front of others. -/
def IsCanonical (digits : List Char) : Prop :=
  IsRun Char.isDigit digits ∧ (digits.head? = some '0' → digits = ['0'])

instance (digits : List Char) : Decidable (IsCanonical digits) :=
  decidable_of_iff ((digits ≠ [] ∧ digits.all Char.isDigit) ∧
    (digits.head? = some '0' → digits = ['0'])) (by simp [IsCanonical, IsRun])

namespace Form

/-- What can be written in a part. -/
structure WellFormed (form : Form) : Prop where
  whole : IsCanonical form.whole
  fraction : ∀ c ∈ form.fraction, c.isDigit = true
  power : ∀ c ∈ form.power, c.isDigit = true
  sign : form.sign ∈ [[], ['+'], ['-']]
  unsigned : form.power = [] → form.sign = []

def fractionText (form : Form) : List Char :=
  if form.fraction = [] then [] else '.' :: form.fraction

def powerText (form : Form) : List Char :=
  if form.power = [] then [] else 'e' :: form.sign ++ form.power

def magnitude (form : Form) : List Char := form.whole ++ form.fractionText ++ form.powerText

def text (form : Form) : List Char :=
  if form.negative then '-' :: form.magnitude else form.magnitude

def isFractional (form : Form) : Bool := !form.fraction.isEmpty || !form.power.isEmpty

def powerValue (form : Form) : Int :=
  let digits := Nat.ofDigitChars 10 form.power 0
  if form.sign = ['-'] then -digits else digits

def decimal (form : Form) : Decimal :=
  ⟨Nat.ofDigitChars 10 (form.whole ++ form.fraction) 0, form.powerValue - form.fraction.length⟩

def double (form : Form) : Binary64 := Binary64.ofDecimal form.negative form.decimal

def integer (form : Form) : Int :=
  let digits := Nat.ofDigitChars 10 form.whole 0
  if form.negative then -digits else digits

/-! Reading. -/

def fraction? : List Char → Option (List Char × List Char)
  | '.' :: rest =>
      let digits := rest.takeWhile Char.isDigit
      if digits = [] then none else some (digits, rest.dropWhile Char.isDigit)
  | rest => some ([], rest)

def powerSign : List Char → List Char × List Char
  | '+' :: rest => (['+'], rest)
  | '-' :: rest => (['-'], rest)
  | rest => ([], rest)

def power? : List Char → Option (List Char × List Char × List Char)
  | [] => some ([], [], [])
  | mark :: rest =>
      if mark = 'e' ∨ mark = 'E' then
        let (sign, unsigned) := powerSign rest
        let digits := unsigned.takeWhile Char.isDigit
        if digits = [] then none else some (sign, digits, unsigned.dropWhile Char.isDigit)
      else some ([], [], mark :: rest)

def readSign : List Char → Bool × List Char
  | '-' :: rest => (true, rest)
  | rest => (false, rest)

def read? (text : List Char) : Option (Form × List Char) := do
  let (negative, unsigned) := readSign text
  let whole := unsigned.takeWhile Char.isDigit
  let (fraction, behind) ← fraction? (unsigned.dropWhile Char.isDigit)
  let (sign, power, rest) ← power? behind
  if IsCanonical whole then some (⟨negative, whole, fraction, sign, power⟩, rest) else none

variable {form : Form} {rest : List Char}

/-- What may stand behind a number: nothing that would be read as a part of it. -/
def Stops (rest : List Char) : Prop :=
  ∀ c ∈ rest.head?, c.isDigit = false ∧ c ∉ ['.', 'e', 'E']

theorem Stops.noDigit (stops : Stops rest) : ∀ c ∈ rest.head?, c.isDigit = false :=
  fun c head => (stops c head).1

theorem power?_text (wellFormed : form.WellFormed) (stops : Stops rest) :
    power? (form.powerText ++ rest) = some (form.sign, form.power, rest) := by
  unfold powerText
  split
  · next absent =>
      rw [wellFormed.unsigned absent, absent]
      cases rest with
      | nil => rfl
      | cons c rest =>
          have noMark := (stops c rfl).2
          simp_all [power?]
  · next present =>
      have signed : powerSign (form.sign ++ (form.power ++ rest)) =
          (form.sign, form.power ++ rest) := by
        obtain ⟨d, digits, same⟩ := List.exists_cons_of_ne_nil present
        have digit : d.isDigit = true := wellFormed.power d (by simp [same])
        have noSign : d ≠ '+' ∧ d ≠ '-' := by
          constructor <;> rintro rfl <;> exact absurd digit (by decide)
        have isSign := wellFormed.sign
        simp only [List.mem_cons, List.not_mem_nil, or_false] at isSign
        rcases isSign with plain | plus | minus
        · simp [plain, same, powerSign, noSign]
        · simp [plus, powerSign]
        · simp [minus, powerSign]
      simp [power?, signed, takeWhile_run wellFormed.power stops.noDigit,
        dropWhile_run wellFormed.power stops.noDigit, present]

theorem fraction?_text (wellFormed : form.WellFormed)
    (stops : ∀ c ∈ rest.head?, c.isDigit = false ∧ c ≠ '.') :
    fraction? (form.fractionText ++ rest) = some (form.fraction, rest) := by
  have noDigit (c : Char) (head : c ∈ rest.head?) := (stops c head).1
  unfold fractionText
  split
  · next absent =>
      rw [absent]
      cases rest with
      | nil => rfl
      | cons c rest =>
          have noPoint := (stops c rfl).2
          simp [fraction?, noPoint]
  · next present =>
      simp [fraction?, takeWhile_run wellFormed.fraction noDigit,
        dropWhile_run wellFormed.fraction noDigit, present]

/-- The parts of a number are read back from its text. -/
theorem read?_text (wellFormed : form.WellFormed) (stops : Stops rest) :
    read? (form.text ++ rest) = some (form, rest) := by
  have behindFraction : ∀ c ∈ (form.powerText ++ rest).head?, c.isDigit = false ∧ c ≠ '.' := by
    unfold powerText
    split
    · intro c head
      exact ⟨(stops c head).1, by rintro rfl; exact absurd (stops _ head).2 (by simp)⟩
    · rintro _ ⟨⟩
      decide
  have behindWhole : ∀ c ∈ (form.fractionText ++ (form.powerText ++ rest)).head?,
      c.isDigit = false := by
    unfold fractionText
    split
    · exact fun c head => (behindFraction c head).1
    · rintro _ ⟨⟩
      rfl
  have signed : readSign (form.text ++ rest) =
      (form.negative, form.whole ++ (form.fractionText ++ (form.powerText ++ rest))) := by
    obtain ⟨d, digits, same⟩ := List.exists_cons_of_ne_nil wellFormed.whole.1.1
    have digit : d.isDigit = true := wellFormed.whole.1.2 d (by simp [same])
    have noSign : d ≠ '-' := by
      rintro rfl
      exact absurd digit (by decide)
    unfold text
    split
    · next minus => simp [readSign, magnitude, minus]
    · next plus => simp [readSign, magnitude, same, noSign, plus]
  simp [read?, signed, takeWhile_run wellFormed.whole.1.2 behindWhole,
    dropWhile_run wellFormed.whole.1.2 behindWhole, fraction?_text wellFormed behindFraction,
    power?_text wellFormed stops, wellFormed.whole]

theorem text_injective {other : Form} (wellFormed : form.WellFormed) (also : other.WellFormed)
    (same : form.text = other.text) : form = other := by
  have ends : Stops [] := by nofun
  have read := read?_text wellFormed ends
  rw [same, read?_text also ends] at read
  cases read
  rfl

theorem text_head (wellFormed : form.WellFormed) :
    ∃ c others, form.text = c :: others ∧ (c = '-' ∨ c.isDigit = true) := by
  obtain ⟨d, digits, same⟩ := List.exists_cons_of_ne_nil wellFormed.whole.1.1
  have digit : d.isDigit = true := wellFormed.whole.1.2 d (by simp [same])
  unfold text
  split
  · exact ⟨'-', _, rfl, .inl rfl⟩
  · exact ⟨d, digits ++ form.fractionText ++ form.powerText, by simp [magnitude, same], .inr digit⟩

theorem mem_fractionText (wellFormed : form.WellFormed) {c : Char}
    (member : c ∈ form.fractionText) :
    c.isDigit = true ∨ form.isFractional = true ∧ c = '.' := by
  unfold fractionText at member
  split at member
  · cases member
  · next present =>
      rcases List.mem_cons.mp member with rfl | digit
      · exact .inr ⟨by simp [isFractional, present], rfl⟩
      · exact .inl (wellFormed.fraction c digit)

theorem mem_powerText (wellFormed : form.WellFormed) {c : Char} (member : c ∈ form.powerText) :
    c.isDigit = true ∨ c = '-' ∨ form.isFractional = true ∧ c ∈ ['e', '+'] := by
  unfold powerText at member
  split at member
  · cases member
  · next present =>
      have fractional : form.isFractional = true := by simp [isFractional, present]
      have isSign := wellFormed.sign
      simp only [List.mem_cons, List.not_mem_nil, or_false] at isSign
      simp only [List.cons_append, List.mem_cons, List.mem_append] at member
      rcases member with rfl | sign | digit
      · exact .inr (.inr ⟨fractional, by simp⟩)
      · rcases isSign with plain | plus | minus <;> simp_all
      · exact .inl (wellFormed.power c digit)

theorem mem_text (wellFormed : form.WellFormed) {c : Char} (member : c ∈ form.text) :
    c.isDigit = true ∨ c = '-' ∨ form.isFractional = true ∧ c ∈ ['.', 'e', '+'] := by
  have inText : c = '-' ∨ c ∈ form.magnitude := by
    unfold text at member
    split at member
    · exact List.mem_cons.mp member
    · exact .inr member
  simp only [magnitude, List.mem_append] at inText
  rcases inText with minus | (whole | fraction) | power
  · exact .inr (.inl minus)
  · exact .inl (wellFormed.whole.1.2 c whole)
  · rcases mem_fractionText wellFormed fraction with digit | ⟨fractional, rfl⟩
    · exact .inl digit
    · exact .inr (.inr ⟨fractional, by simp⟩)
  · rcases mem_powerText wellFormed power with digit | minus | ⟨fractional, mark⟩
    · exact .inl digit
    · exact .inr (.inl minus)
    · exact .inr (.inr ⟨fractional, List.mem_cons_of_mem _ mark⟩)

end Form

/-! Digits. -/

theorem isCanonical_of_head {digits : List Char} (run : IsRun Char.isDigit digits)
    (head : digits.head? ≠ some '0') : IsCanonical digits :=
  ⟨run, fun zero => absurd zero head⟩

theorem toDigits_run (number : Nat) : IsRun Char.isDigit (Nat.toDigits 10 number) :=
  ⟨Nat.toDigits_ne_nil, fun _ => Nat.isDigit_of_mem_toDigits (by decide) (by decide)⟩

theorem head?_toDigits {number : Nat} (present : number ≠ 0) :
    (Nat.toDigits 10 number).head? ≠ some '0' := by
  induction number using Nat.strongRecOn with
  | _ number ih =>
      by_cases small : number < 10
      · rw [Nat.toDigits_of_lt_base small]
        have nonzero : ∀ digit < 10, digit ≠ 0 → digit.digitChar ≠ '0' := by decide
        simpa using nonzero number small present
      · have fewer : number / 10 < number := Nat.div_lt_self (by omega) (by decide)
        rw [Nat.toDigits_of_base_le (by decide) (by omega),
          List.head?_append_of_ne_nil _ Nat.toDigits_ne_nil]
        exact ih _ fewer (by omega)

theorem isCanonical_toDigits (number : Nat) : IsCanonical (Nat.toDigits 10 number) := by
  by_cases zero : number = 0
  · subst zero
    decide
  · exact isCanonical_of_head (toDigits_run number) (head?_toDigits zero)

@[simp] theorem ofDigitChars_toDigits (number : Nat) :
    Nat.ofDigitChars 10 (Nat.toDigits 10 number) 0 = number :=
  Nat.ofDigitChars_toDigits (by decide) (by decide)

theorem writeInt_form (value : Int) : ∃ form : Form, form.WellFormed ∧
    form.isFractional = false ∧ writeInt value = form.text ∧ form.integer = value := by
  refine ⟨⟨value < 0, Nat.toDigits 10 value.natAbs, [], [], []⟩, ?_, rfl, ?_, ?_⟩
  · exact ⟨isCanonical_toDigits _, by simp, by simp, by simp, by simp⟩
  · simp [writeInt, Form.text, Form.magnitude, Form.fractionText, Form.powerText]
  · simp only [Form.integer, ofDigitChars_toDigits, decide_eq_true_eq]
    split <;> omega

end Decimal

namespace Layout

open Decimal

variable {value : Decimal}

/-- Forms that stand for the same doubles as a decimal. -/
structure Shows (text : List Char) (value : Decimal) (form : Form) : Prop where
  wellFormed : form.WellFormed
  fractional : form.isFractional = true
  text : text = form.magnitude
  double : ∀ negative, Binary64.ofDecimal negative form.decimal = Binary64.ofDecimal negative value

theorem zeros_digits (count : Nat) : ∀ c ∈ zeros count, c.isDigit = true := by
  intro c member
  rw [List.eq_of_mem_replicate member]
  rfl

theorem whole_shows {coefficient exponent : Nat} (present : coefficient ≠ 0)
    (small : exponent < 400) :
    ∃ form, Shows (positional (Nat.toDigits 10 coefficient) exponent)
      ⟨coefficient, exponent⟩ form := by
  have run := toDigits_run coefficient
  have digits : IsRun Char.isDigit (Nat.toDigits 10 coefficient ++ zeros exponent) := by
    refine ⟨List.append_ne_nil_of_left_ne_nil run.1 _, fun c member => ?_⟩
    exact (List.mem_append.mp member).elim (run.2 c) (zeros_digits exponent c)
  have head : (Nat.toDigits 10 coefficient ++ zeros exponent).head? ≠ some '0' := by
    rw [List.head?_append_of_ne_nil _ run.1]
    exact head?_toDigits present
  refine ⟨⟨false, Nat.toDigits 10 coefficient ++ zeros exponent, ['0'], [], []⟩, ?_, rfl, ?_, ?_⟩
  · exact ⟨isCanonical_of_head digits head, by simp, by simp, by simp, by simp⟩
  · simp [positional, Form.magnitude, Form.fractionText, Form.powerText]
  · intro negative
    have read : Nat.ofDigitChars 10 (Nat.toDigits 10 coefficient ++ zeros exponent ++ ['0']) 0 =
        coefficient * 10 ^ (exponent + 1) := by
      simp [Nat.ofDigitChars_append, zeros, Nat.ofDigitChars_replicate_zero,
        Nat.ofDigitChars_cons]
      ring
    simp only [Form.decimal, read, Form.powerValue]
    exact Binary64.ofDecimal_shift present small

theorem among_shows {digits : List Char} (run : IsRun Char.isDigit digits)
    (head : digits.head? ≠ some '0') {places : Nat} (behind : 0 < places)
    (inside : places < digits.length) :
    ∃ form, Shows (digits.take (digits.length - places) ++
        '.' :: digits.drop (digits.length - places))
      ⟨Nat.ofDigitChars 10 digits 0, -places⟩ form := by
  have split := List.take_append_drop (digits.length - places) digits
  have whole : digits.take (digits.length - places) ≠ [] := by
    simpa [List.take_eq_nil_iff] using ⟨by omega, run.1⟩
  have fraction : digits.drop (digits.length - places) ≠ [] := by
    rw [Ne, List.drop_eq_nil_iff]
    omega
  have leading : (digits.take (digits.length - places)).head? ≠ some '0' := by
    rwa [← List.head?_append_of_ne_nil _ whole, split]
  refine ⟨⟨false, digits.take (digits.length - places), digits.drop (digits.length - places),
    [], []⟩, ?_, ?_, ?_, ?_⟩
  · exact ⟨isCanonical_of_head ⟨whole, fun c member => run.2 c (List.mem_of_mem_take member)⟩
      leading, fun c member => run.2 c (List.mem_of_mem_drop member), by simp, by simp, by simp⟩
  · simpa [Form.isFractional] using fraction
  · simp [Form.magnitude, Form.fractionText, Form.powerText, fraction]
  · intro negative
    have count : digits.length - (digits.length - places) = places := by omega
    simp [Form.decimal, Form.powerValue, count]

theorem before_shows {digits : List Char} (run : IsRun Char.isDigit digits) {places : Nat}
    (outside : digits.length ≤ places) :
    ∃ form, Shows ('0' :: '.' :: zeros (places - digits.length) ++ digits)
      ⟨Nat.ofDigitChars 10 digits 0, -places⟩ form := by
  have fraction : ∀ c ∈ zeros (places - digits.length) ++ digits, c.isDigit = true := by
    intro c member
    exact (List.mem_append.mp member).elim (zeros_digits _ c) (run.2 c)
  refine ⟨⟨false, ['0'], zeros (places - digits.length) ++ digits, [], []⟩, ?_, ?_, ?_, ?_⟩
  · exact ⟨isCanonical_toDigits 0, fraction, by simp, by simp, by simp⟩
  · simp [Form.isFractional, run.1]
  · simp [Form.magnitude, Form.fractionText, Form.powerText, run.1]
  · intro negative
    have read : Nat.ofDigitChars 10 ('0' :: (zeros (places - digits.length) ++ digits)) 0 =
        Nat.ofDigitChars 10 digits 0 := by
      simp [Nat.ofDigitChars_append, Nat.ofDigitChars_cons, zeros,
        Nat.ofDigitChars_replicate_zero]
    have length : (zeros (places - digits.length) ++ digits).length = places := by
      simp [zeros, outside]
    simp only [Form.decimal, Form.powerValue, List.cons_append, List.nil_append, read, length]
    simp

theorem pointed_shows {coefficient places : Nat} (present : coefficient ≠ 0)
    (behind : 0 < places) :
    ∃ form, Shows (positional (Nat.toDigits 10 coefficient) (-places))
      ⟨coefficient, -places⟩ form := by
  have run := toDigits_run coefficient
  have fractional : ¬ (0 : Int) ≤ -places := by omega
  have toNat : (-(-(places : Int))).toNat = places := by omega
  simp only [positional, fractional, ↓reduceIte, toNat]
  split
  · next inside =>
      simpa using among_shows run (head?_toDigits present) behind inside
  · next outside =>
      simpa using before_shows run (Nat.le_of_not_lt outside)

theorem signedPower_signed {layout : Layout} (plus : layout.plus ∈ ["", "+"]) (power : Int) :
    ∃ sign ∈ [[], ['+'], ['-']], layout.signedPower power =
      sign ++ Nat.toDigits 10 power.natAbs ∧ (sign = ['-'] ↔ power < 0) := by
  unfold signedPower
  split
  · next minus => exact ⟨['-'], by simp, rfl, by simpa using minus⟩
  · next noMinus =>
      simp only [List.mem_cons, List.not_mem_nil, or_false] at plus
      refine ⟨layout.plus.toList, ?_, rfl, ?_⟩
      · rcases plus with plain | plus <;> simp_all
      · rcases plus with plain | plus <;> simp_all

theorem scientific_shows {layout : Layout} (plus : layout.plus ∈ ["", "+"]) {coefficient : Nat}
    (present : coefficient ≠ 0) (exponent : Int) :
    ∃ form, Shows (layout.scientific (Nat.toDigits 10 coefficient)
        (exponent + (Nat.toDigits 10 coefficient).length - 1)) ⟨coefficient, exponent⟩ form := by
  have run := toDigits_run coefficient
  have head := head?_toDigits present
  have value := ofDigitChars_toDigits coefficient
  generalize Nat.toDigits 10 coefficient = digits at run head value ⊢
  obtain ⟨first, others, rfl⟩ := List.exists_cons_of_ne_nil run.1
  generalize power : exponent + (first :: others).length - 1 = leading
  have powerRun := toDigits_run leading.natAbs
  obtain ⟨sign, isSign, text, minus⟩ := signedPower_signed plus leading
  refine ⟨⟨false, [first], others, sign, Nat.toDigits 10 leading.natAbs⟩, ?_, ?_, ?_, ?_⟩
  · have whole : IsRun Char.isDigit [first] := ⟨by simp, by simpa using run.2 first (by simp)⟩
    exact ⟨isCanonical_of_head whole (by simpa using head),
      fun c member => run.2 c (by simp [member]), powerRun.2, isSign,
      fun none => absurd none powerRun.1⟩
  · simp [Form.isFractional, powerRun.1]
  · simp [scientific, Form.magnitude, Form.fractionText, Form.powerText, text, powerRun.1]
  · intro negative
    have read : Form.powerValue ⟨false, [first], others, sign, Nat.toDigits 10 leading.natAbs⟩ =
        leading := by
      simp only [Form.powerValue, minus, ofDigitChars_toDigits]
      split <;> omega
    have back : leading - others.length = exponent := by
      simp only [List.length_cons] at power
      omega
    simp [Form.decimal, read, value, back]

theorem decimal_shows {layout : Layout} (plus : layout.plus ∈ ["", "+"]) {value : Decimal}
    (present : value.coefficient ≠ 0) (small : value.exponent < 400) :
    ∃ form, Shows (layout.decimal value) value form := by
  obtain ⟨coefficient, exponent⟩ := value
  simp only [decimal]
  split
  · cases exponent with
    | ofNat exponent => exact whole_shows present (by simpa using small)
    | negSucc places => exact pointed_shows present (Nat.succ_pos places)
  · exact scientific_shows plus present exponent

theorem zero_shows : ∃ form, Shows ['0', '.', '0'] ⟨0, 0⟩ form := by
  refine ⟨⟨false, ['0'], ['0'], [], []⟩, ?_, rfl, rfl, ?_⟩
  · exact ⟨isCanonical_toDigits 0, by simp, by simp, by simp, by simp⟩
  · intro negative
    have read : Nat.ofDigitChars 10 ['0', '0'] 0 = 0 := by decide
    simp [Form.decimal, read, Binary64.ofDecimal]

theorem magnitude_shows {layout : Layout} (plus : layout.plus ∈ ["", "+"]) {value : Binary64}
    (finite : value.isFinite = true) : ∃ decimal form,
      Binary64.readsBack value.code decimal = true ∧
        Shows (if value.isZero then ['0', '.', '0']
          else layout.decimal (Binary64.shortest layout.tie value.code)) decimal form := by
  have finite : value.code < Format.binary64.infinity := by simpa [Binary64.isFinite] using finite
  by_cases zero : value.code = 0
  · obtain ⟨form, shown⟩ := zero_shows
    refine ⟨⟨0, 0⟩, form, ?_, ?_⟩
    · simp [zero, Binary64.readsBack, Binary64.ofDecimal, Binary64.zero]
    · simpa [Binary64.isZero, zero] using shown
  · have positive := Nat.pos_of_ne_zero zero
    have back := Binary64.shortest_readsBack layout.tie positive finite
    obtain ⟨present, small⟩ := Binary64.readsBack_range positive finite back
    obtain ⟨form, shown⟩ := decimal_shows plus present small
    exact ⟨_, form, back, by simpa [Binary64.isZero, zero] using shown⟩

/-- The text of a finite double is a form with a fraction or a power, which reads back as it. -/
theorem text_form {layout : Layout} (plus : layout.plus ∈ ["", "+"]) {value : Binary64}
    (finite : value.isFinite = true) : ∃ form : Form, form.WellFormed ∧
      form.isFractional = true ∧ (layout.text value).toList = form.text ∧ form.double = value := by
  obtain ⟨decimal, form, back, shown⟩ := magnitude_shows plus finite
  refine ⟨{ form with negative := value.negative }, ?_, shown.fractional, ?_, ?_⟩
  · have wellFormed := shown.wellFormed
    exact ⟨wellFormed.whole, wellFormed.fraction, wellFormed.power, wellFormed.sign,
      wellFormed.unsigned⟩
  · simp only [Layout.text, shown.text, String.toList_ofList]
    rfl
  · exact (shown.double value.negative).trans (Binary64.ofDecimal_of_readsBack back)

end Layout

end ScalarC
