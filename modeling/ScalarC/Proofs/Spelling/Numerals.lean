import ScalarC.Proofs.Reserved
import ScalarC.Proofs.Spelling.Grammar

/-!
The scanner reads exactly the numerals: what it reads is one that ends where it
stops, and it reads every one that nothing continues.
-/

namespace ScalarC.Scanner

section Runs

variable {inClass : Char → Bool} {text taken rest : List Char}

theorem mem_takeWhile {c : Char} (member : c ∈ text.takeWhile inClass) : inClass c = true :=
  List.all_eq_true.mp List.all_takeWhile c member

theorem head_dropWhile {c : Char} (head : c ∈ (text.dropWhile inClass).head?) :
    inClass c = false := by
  have stops := List.head?_dropWhile_not inClass text
  rw [Option.mem_def.mp head] at stops
  exact stops

theorem takeWhile_run (all : ∀ c ∈ taken, inClass c = true)
    (stops : ∀ c ∈ rest.head?, inClass c = false) : (taken ++ rest).takeWhile inClass = taken := by
  rw [List.takeWhile_append_of_pos all]
  cases rest with
  | nil => simp
  | cons c rest => simp [stops c rfl]

theorem dropWhile_run (all : ∀ c ∈ taken, inClass c = true)
    (stops : ∀ c ∈ rest.head?, inClass c = false) : (taken ++ rest).dropWhile inClass = rest := by
  rw [List.dropWhile_append_of_pos all]
  cases rest with
  | nil => rfl
  | cons c rest => simp [stops c rfl]

end Runs

/-! What a decimal numeral is made of. -/

theorem digit_isWordCharacter {c : Char} (word : isWordCharacter c = false) :
    c.isDigit = false := by
  simp only [isWordCharacter, Char.isAlphanum, Bool.or_eq_false_iff] at word
  exact word.1.2

theorem mantissa_characters {body : List Char} (isMantissa : IsMantissa body) :
    ∀ c ∈ body, c.isDigit = true ∨ c = '.' := by
  cases isMantissa with
  | whole run => exact fun c member => .inl (run.2 c member)
  | pointed run =>
      intro c member
      have digits := run.2
      simp only [List.mem_append, List.mem_cons] at member digits
      rcases member with whole | point | fraction
      · exact .inl (digits c (.inl whole))
      · exact .inr point
      · exact .inl (digits c (.inr fraction))

theorem IsMantissa.ne_nil {body : List Char} (isMantissa : IsMantissa body) : body ≠ [] := by
  cases isMantissa with
  | whole run => exact run.1
  | pointed => simp

theorem exponent_characters {exponent : List Char} (isExponent : IsExponent exponent) :
    ∀ c ∈ exponent, c.isDigit = true ∨ c ∈ ['e', 'E', '+', '-'] := by
  cases isExponent with
  | none => simp
  | @power mark sign digits isMark isSign run =>
      intro c member
      simp only [List.cons_append, List.mem_cons, List.mem_append] at member
      simp only [List.mem_cons, List.not_mem_nil, or_false] at isMark isSign ⊢
      rcases member with rfl | signed | digit
      · rcases isMark with rfl | rfl <;> simp
      · rcases isSign with rfl | rfl | rfl <;> simp_all
      · exact .inl (run.2 c digit)

theorem hexDigits?_some {text digits : List Char}
    (found : Literal.hexDigits? text = some digits) :
    ∃ mark, (mark = 'x' ∨ mark = 'X') ∧ text = '0' :: mark :: digits := by
  unfold Literal.hexDigits? at found
  split at found
  · cases found
    exact ⟨'x', .inl rfl, rfl⟩
  · cases found
    exact ⟨'X', .inr rfl, rfl⟩
  · cases found

theorem decimal_not_hexadecimal {body exponent : List Char} (isMantissa : IsMantissa body)
    (isExponent : IsExponent exponent) : Literal.hexDigits? (body ++ exponent) = none := by
  have plain (c : Char) (member : c ∈ body ++ exponent) :
      c.isDigit = true ∨ c ∈ ['.', 'e', 'E', '+', '-'] := by
    rcases List.mem_append.mp member with inBody | inExponent
    · exact (mantissa_characters isMantissa c inBody).imp_right fun point => by simp [point]
    · exact (exponent_characters isExponent c inExponent).imp_right (List.mem_cons_of_mem _)
  cases found : Literal.hexDigits? (body ++ exponent) with
  | none => rfl
  | some digits =>
      obtain ⟨mark, isMark, same⟩ := hexDigits?_some found
      have marked := plain mark (by rw [same]; simp)
      rcases isMark with rfl | rfl <;> exact absurd marked (by decide)

theorem isFractional_decimal {body exponent : List Char} (isMantissa : IsMantissa body)
    (isExponent : IsExponent exponent) :
    Literal.isFractional (String.ofList (body ++ exponent)) = true ↔
      '.' ∈ body ∨ exponent ≠ [] := by
  have plain (c : Char) (mark : c = 'e' ∨ c = 'E') : c ∉ body := by
    intro member
    rcases mantissa_characters isMantissa c member with digit | rfl
    · rcases mark with rfl | rfl <;> exact absurd digit (by decide)
    · exact absurd mark (by decide)
  simp only [Literal.isFractional, String.toList_ofList,
    decimal_not_hexadecimal isMantissa isExponent, Option.isNone_none, Bool.true_and,
    List.any_eq_true, List.mem_append, Bool.or_eq_true, decide_eq_true_eq, or_assoc]
  constructor
  · rintro ⟨c, inBody | inExponent, is⟩
    · rcases is with rfl | mark
      · exact .inl inBody
      · exact absurd inBody (plain c mark)
    · exact .inr (List.ne_nil_of_mem inExponent)
  · rintro (point | present)
    · exact ⟨'.', .inl point, .inl rfl⟩
    · cases isExponent with
      | none => exact absurd rfl present
      | @power mark _ _ isMark =>
          refine ⟨mark, .inr (by simp), .inr ?_⟩
          simpa using isMark

/-! Reading a numeral. -/

theorem mantissa_reads {c : Char} {rest : List Char} (starts : startsNumber c rest = true) :
    IsMantissa (mantissa (c :: rest)).1 ∧
      ∀ next ∈ (mantissa (c :: rest)).2.head?, next.isDigit = false ∧
        (next = '.' → '.' ∈ (mantissa (c :: rest)).1) := by
  have whole : ∀ d ∈ (c :: rest).takeWhile Char.isDigit, d.isDigit = true := fun _ => mem_takeWhile
  have some := mantissa_ne_nil starts
  unfold mantissa at some ⊢
  split
  · next others point =>
      refine ⟨.pointed ⟨?_, ?_⟩, fun next head => ⟨head_dropWhile head, fun _ => by simp⟩⟩
      -- A point in front stands before a digit, and otherwise a digit is in front.
      · by_cases digit : c.isDigit = true
        · simp [digit]
        · simp only [List.takeWhile_cons, List.dropWhile_cons, digit] at point ⊢
          obtain ⟨rfl, rfl⟩ := List.cons.inj point
          simp only [startsNumber, digit, Bool.false_or, decide_true, Bool.true_and,
            Option.any_eq_true] at starts
          obtain ⟨d, head, isDigit⟩ := starts
          obtain ⟨others, rfl⟩ := List.head?_eq_some_iff.mp head
          simp [isDigit]
      · intro d member
        rcases List.mem_append.mp member with inWhole | inFraction
        · exact whole d inWhole
        · exact mem_takeWhile inFraction
  · next noPoint =>
      split at some
      · next others point => exact absurd point (noPoint others)
      refine ⟨.whole ⟨some, whole⟩, fun next head => ⟨head_dropWhile head, ?_⟩⟩
      rintro rfl
      obtain ⟨others, point⟩ := List.head?_eq_some_iff.mp head
      exact absurd point (noPoint others)

theorem exponentMark_reads {text mark digits : List Char}
    (found : exponentMark text = some (mark, digits)) :
    ∃ letter sign, mark = letter :: sign ∧ letter ∈ ['e', 'E'] ∧ sign ∈ [[], ['+'], ['-']] ∧
      (sign = [] → ∀ c ∈ digits.head?, c ≠ '+' ∧ c ≠ '-') := by
  unfold exponentMark at found
  split at found
  · split at found
    · next letter rest isMark =>
        have isLetter : letter ∈ ['e', 'E'] := by simpa using isMark
        split at found
        · split at found
          · next isSign =>
              cases found
              exact ⟨_, _, rfl, isLetter, by simpa using isSign, nofun⟩
          · next noSign =>
              cases found
              exact ⟨_, _, rfl, isLetter, by simp, fun _ => by simpa using noSign⟩
        · cases found
          exact ⟨_, _, rfl, isLetter, by simp, by simp⟩
    · cases found
  · cases found

theorem complete_ok {taken rest : List Char} {kind : TokenKind}
    (read : (complete taken rest).result = .ok kind) :
    ∀ c ∈ rest.head?, isWordCharacter c = false := by
  intro c head
  obtain ⟨others, rfl⟩ := List.head?_eq_some_iff.mp head
  unfold complete at read
  by_cases word : isWordCharacter c = true
  · simp [word] at read
  · simpa using word

theorem decimal_reads {c : Char} {rest : List Char} {kind : TokenKind}
    (starts : startsNumber c rest = true) (read : (decimal (c :: rest)).result = .ok kind) :
    ∃ body exponent, (decimal (c :: rest)).taken = body ++ exponent ∧ IsMantissa body ∧
      IsExponent exponent ∧ ∀ next ∈ (decimal (c :: rest)).rest.head?,
        isWordCharacter next = false ∧ (next = '.' → '.' ∈ body ∨ exponent ≠ []) := by
  obtain ⟨isMantissa, stops⟩ := mantissa_reads starts
  unfold decimal at read ⊢
  cases found : exponentMark (mantissa (c :: rest)).2 with
  | none =>
      simp only [found] at read ⊢
      refine ⟨_, [], by simp, isMantissa, .none, fun next head => ?_⟩
      rw [complete_rest] at head
      exact ⟨complete_ok read next head, fun point => .inl ((stops next head).2 point)⟩
  | some pair =>
      obtain ⟨mark, text⟩ := pair
      simp only [found] at read ⊢
      by_cases empty : text.takeWhile Char.isDigit = []
      · simp [empty] at read
      have present : (text.takeWhile Char.isDigit).isEmpty = false := by
        simpa [List.isEmpty_eq_false_iff] using empty
      simp only [present, Bool.false_eq_true, ↓reduceIte] at read ⊢
      obtain ⟨letter, sign, rfl, isLetter, isSign, _⟩ := exponentMark_reads found
      refine ⟨_, letter :: sign ++ text.takeWhile Char.isDigit, by simp, isMantissa,
        .power isLetter isSign ⟨empty, fun _ => mem_takeWhile⟩, fun next head => ?_⟩
      rw [complete_rest] at head
      exact ⟨complete_ok read next head, fun _ => .inr (by simp)⟩

theorem hexadecimal_reads {radix text : List Char} {kind : TokenKind}
    (read : (hexadecimal radix text).result = .ok kind) :
    ∃ digits, (hexadecimal radix text).taken = radix ++ digits ∧ IsRun isHexDigit digits ∧
      ∀ next ∈ (hexadecimal radix text).rest.head?, isHexDigit next = false := by
  unfold hexadecimal at read ⊢
  by_cases empty : text.takeWhile isHexDigit = []
  · simp [empty] at read
  have present : (text.takeWhile isHexDigit).isEmpty = false := by
    simpa [List.isEmpty_eq_false_iff] using empty
  simp only [present, Bool.false_eq_true, ↓reduceIte] at read ⊢
  exact ⟨_, rfl, ⟨empty, fun _ => mem_takeWhile⟩, fun _ => head_dropWhile⟩

theorem numeral_reads {c : Char} {rest : List Char} {kind : TokenKind}
    (starts : startsNumber c rest = true) (read : (numeral (c :: rest)).result = .ok kind) :
    Lexeme.Spelled ⟨kind, String.ofList (numeral (c :: rest)).taken⟩ ∧
      Lexeme.EndsBefore ⟨kind, String.ofList (numeral (c :: rest)).taken⟩
        (numeral (c :: rest)).rest := by
  obtain rfl := numeral_result _ read
  have hexadecimals {radix text : List Char} (isRadix : radix ∈ [['0', 'x'], ['0', 'X']])
      (read : (hexadecimal radix text).result = .ok .number) :
      Lexeme.Spelled ⟨.number, String.ofList (hexadecimal radix text).taken⟩ ∧
        Lexeme.EndsBefore ⟨.number, String.ofList (hexadecimal radix text).taken⟩
          (hexadecimal radix text).rest := by
    obtain ⟨digits, taken, run, stops⟩ := hexadecimal_reads read
    have marked : (Literal.hexDigits? (radix ++ digits)).isSome = true := by
      simp only [List.mem_cons, List.not_mem_nil, or_false] at isRadix
      rcases isRadix with rfl | rfl <;> rfl
    refine ⟨.number ?_, fun next head => ?_⟩
    · rw [String.toList_ofList, taken]
      exact .hexadecimal isRadix run
    · simp only [String.toList_ofList, taken, marked, ↓reduceIte]
      exact stops next head
  unfold numeral at read ⊢
  split at read
  · exact hexadecimals (by simp) read
  · exact hexadecimals (by simp) read
  · obtain ⟨body, exponent, taken, isMantissa, isExponent, stops⟩ := decimal_reads starts read
    refine ⟨.number ?_, fun next head => ?_⟩
    · rw [String.toList_ofList, taken]
      exact .decimal isMantissa isExponent
    · obtain ⟨noWord, point⟩ := stops next head
      have plain := decimal_not_hexadecimal isMantissa isExponent
      simp only [String.toList_ofList, taken, plain, Option.isSome_none, Bool.false_eq_true,
        ↓reduceIte, isFractional_decimal isMantissa isExponent]
      exact ⟨noWord, point⟩

/-! What is a numeral is read as one. -/

theorem startsNumber_of_numeral {text : List Char} (isNumeral : IsNumeral text) :
    ∃ c others, text = c :: others ∧ ∀ rest, startsNumber c (others ++ rest) = true := by
  cases isNumeral with
  | hexadecimal isRadix =>
      simp only [List.mem_cons, List.not_mem_nil, or_false] at isRadix
      rcases isRadix with rfl | rfl <;> exact ⟨'0', _, rfl, fun _ => rfl⟩
  | @decimal body exponent isMantissa =>
      cases isMantissa with
      | whole run =>
          obtain ⟨c, digits, rfl⟩ := List.exists_cons_of_ne_nil run.1
          exact ⟨c, digits ++ exponent, rfl, fun _ => by simp [startsNumber, run.2 c (by simp)]⟩
      | @pointed whole fraction run =>
          cases whole with
          | cons c whole =>
              exact ⟨c, _, rfl, fun _ => by simp [startsNumber, run.2 c (by simp)]⟩
          | nil =>
              obtain ⟨d, digits, rfl⟩ := List.exists_cons_of_ne_nil run.1
              exact ⟨'.', _, rfl, fun _ => by simp [startsNumber, run.2 d (by simp)]⟩

theorem mantissa_of_is {body rest : List Char} (isMantissa : IsMantissa body)
    (stops : ∀ next ∈ rest.head?, next.isDigit = false ∧ (next = '.' → '.' ∈ body)) :
    mantissa (body ++ rest) = (body, rest) := by
  have noDigit (next : Char) (head : next ∈ rest.head?) := (stops next head).1
  cases isMantissa with
  | whole run =>
      have noPoint (others : List Char) : rest ≠ '.' :: others := by
        rintro rfl
        exact absurd (run.2 '.' ((stops '.' rfl).2 rfl)) (by decide)
      simp only [mantissa, takeWhile_run run.2 noDigit, dropWhile_run run.2 noDigit]
  | @pointed whole fraction run =>
      have inWhole : ∀ c ∈ whole, c.isDigit = true := fun c member => run.2 c (by simp [member])
      have inFraction : ∀ c ∈ fraction, c.isDigit = true :=
        fun c member => run.2 c (by simp [member])
      have point : ∀ c ∈ ('.' :: (fraction ++ rest)).head?, c.isDigit = false := by
        simp only [List.head?_cons, Option.mem_def, Option.some.injEq]
        rintro _ rfl
        rfl
      rw [List.append_assoc, List.cons_append]
      simp only [mantissa, takeWhile_run inWhole point, dropWhile_run inWhole point,
        takeWhile_run inFraction noDigit, dropWhile_run inFraction noDigit]

theorem mantissa_of_mark {body rest : List Char} {mark : Char} (isMantissa : IsMantissa body)
    (isMark : mark ∈ ['e', 'E']) : mantissa (body ++ mark :: rest) = (body, mark :: rest) := by
  refine mantissa_of_is isMantissa fun next head => ?_
  obtain rfl : mark = next := by simpa using head
  simp only [List.mem_cons, List.not_mem_nil, or_false] at isMark
  rcases isMark with rfl | rfl <;> exact ⟨by decide, by simp⟩

theorem exponentMark_of_mark {mark : Char} {sign rest : List Char}
    (isMark : mark ∈ ['e', 'E']) (isSign : sign ∈ [[], ['+'], ['-']])
    (unsigned : sign = [] → ∀ c ∈ rest.head?, c ≠ '+' ∧ c ≠ '-') :
    exponentMark (mark :: sign ++ rest) = some (mark :: sign, rest) := by
  have isLetter : mark = 'e' ∨ mark = 'E' := by simpa using isMark
  simp only [List.mem_cons, List.not_mem_nil, or_false] at isSign
  rcases isSign with rfl | rfl | rfl
  · cases rest with
    | nil => simp [exponentMark, isLetter]
    | cons c rest => simp [exponentMark, isLetter, unsigned rfl c rfl]
  all_goals simp [exponentMark, isLetter]

theorem exponentMark_of_power {mark : Char} {sign digits rest : List Char}
    (isMark : mark ∈ ['e', 'E']) (isSign : sign ∈ [[], ['+'], ['-']])
    (run : IsRun Char.isDigit digits) :
    exponentMark (mark :: sign ++ digits ++ rest) = some (mark :: sign, digits ++ rest) := by
  obtain ⟨d, digits, rfl⟩ := List.exists_cons_of_ne_nil run.1
  have digit := run.2 d (by simp)
  rw [List.append_assoc]
  refine exponentMark_of_mark isMark isSign fun _ c head => ?_
  obtain rfl : d = c := by simpa using head
  constructor <;> rintro rfl <;> exact absurd digit (by decide)

theorem noMark_of_stop {c : Char} (stop : isWordCharacter c = false) : c ≠ 'x' ∧ c ≠ 'X' := by
  constructor <;> rintro rfl <;> exact absurd stop (by decide)

theorem exponentMark_of_stop {rest : List Char}
    (stops : ∀ c ∈ rest.head?, isWordCharacter c = false) : exponentMark rest = none := by
  cases rest with
  | nil => rfl
  | cons c rest =>
      have noMark : c ≠ 'e' ∧ c ≠ 'E' := by
        constructor <;> rintro rfl <;> exact absurd (stops _ rfl) (by decide)
      simp [exponentMark, noMark]

theorem complete_of_stop {taken rest : List Char}
    (stops : ∀ c ∈ rest.head?, isWordCharacter c = false) :
    complete taken rest = ⟨.ok .number, taken, rest⟩ := by
  cases rest with
  | nil => rfl
  | cons c rest => simp [complete, stops c rfl]

section Decimal

variable {body exponent rest : List Char} (isMantissa : IsMantissa body)
  (isExponent : IsExponent exponent)
  (stops : ∀ next ∈ rest.head?,
    isWordCharacter next = false ∧ (next = '.' → '.' ∈ body ∨ exponent ≠ []))
include isMantissa isExponent stops

theorem mantissa_of_decimal : mantissa (body ++ exponent ++ rest) = (body, exponent ++ rest) := by
  cases isExponent with
  | none =>
      rw [List.append_nil]
      exact mantissa_of_is isMantissa fun next head =>
        ⟨digit_isWordCharacter (stops next head).1, by simpa using (stops next head).2⟩
  | power isMark =>
      rw [List.append_assoc]
      exact mantissa_of_mark isMantissa isMark

theorem decimal_of_is :
    decimal (body ++ exponent ++ rest) = ⟨.ok .number, body ++ exponent, rest⟩ := by
  have noWord (next : Char) (head : next ∈ rest.head?) := (stops next head).1
  rw [decimal, mantissa_of_decimal isMantissa isExponent stops]
  cases isExponent with
  | none => simp [exponentMark_of_stop noWord, complete_of_stop noWord]
  | @power mark sign digits isMark isSign run =>
      have noDigit (next : Char) (head : next ∈ rest.head?) :=
        digit_isWordCharacter (noWord next head)
      have present : digits.isEmpty = false := List.isEmpty_eq_false_iff.mpr run.1
      simp only [exponentMark_of_power isMark isSign run, takeWhile_run run.2 noDigit,
        dropWhile_run run.2 noDigit, present, Bool.false_eq_true, ↓reduceIte,
        complete_of_stop noWord]
      simp

end Decimal

theorem hexadecimal_of_is {radix digits rest : List Char} (run : IsRun isHexDigit digits)
    (stops : ∀ c ∈ rest.head?, isHexDigit c = false) :
    hexadecimal radix (digits ++ rest) = ⟨.ok .number, radix ++ digits, rest⟩ := by
  have present : digits.isEmpty = false := List.isEmpty_eq_false_iff.mpr run.1
  simp only [hexadecimal, takeWhile_run run.2 stops, dropWhile_run run.2 stops, present,
    Bool.false_eq_true, ↓reduceIte]

section Radix

variable {text rest : List Char} (some : text ≠ []) (plain : Literal.hexDigits? text = none)
  (noMark : text = ['0'] → ∀ c ∈ rest.head?, c ≠ 'x' ∧ c ≠ 'X')
include some plain noMark

/-- Nothing hexadecimal begins with a text that is not, unless the text is a zero and a mark
follows it. -/
theorem no_radix_begins {radix : List Char} (isRadix : radix ∈ [['0', 'x'], ['0', 'X']]) :
    ¬ radix <+: text ++ rest := by
  simp only [List.mem_cons, List.not_mem_nil, or_false] at isRadix
  rintro ⟨more, same⟩
  match text with
  | [] => exact absurd rfl some
  | [c] =>
      rcases isRadix with rfl | rfl
      · obtain ⟨rfl, rfl⟩ := List.cons.inj same
        exact absurd rfl (noMark rfl 'x' rfl).1
      · obtain ⟨rfl, rfl⟩ := List.cons.inj same
        exact absurd rfl (noMark rfl 'X' rfl).2
  | c :: d :: text =>
      rcases isRadix with rfl | rfl
      · obtain ⟨rfl, rfl, _⟩ := by simpa using same
        cases plain
      · obtain ⟨rfl, rfl, _⟩ := by simpa using same
        cases plain

theorem numeral_of_decimal : numeral (text ++ rest) = decimal (text ++ rest) := by
  unfold numeral
  split
  · next behind same =>
      have begins : ['0', 'x'] <+: text ++ rest := ⟨behind, same.symm⟩
      exact absurd begins (no_radix_begins some plain noMark (by simp))
  · next behind same =>
      have begins : ['0', 'X'] <+: text ++ rest := ⟨behind, same.symm⟩
      exact absurd begins (no_radix_begins some plain noMark (by simp))
  · rfl

end Radix

theorem decimal_stops {body exponent rest : List Char} (isMantissa : IsMantissa body)
    (isExponent : IsExponent exponent)
    (ends : Lexeme.EndsBefore ⟨.number, String.ofList (body ++ exponent)⟩ rest) :
    ∀ next ∈ rest.head?,
      isWordCharacter next = false ∧ (next = '.' → '.' ∈ body ∨ exponent ≠ []) := by
  simpa only [Lexeme.EndsBefore, String.toList_ofList,
    decimal_not_hexadecimal isMantissa isExponent, Option.isSome_none, Bool.false_eq_true,
    ↓reduceIte, isFractional_decimal isMantissa isExponent] using ends

theorem numeral_of_is {text rest : List Char} (isNumeral : IsNumeral text)
    (ends : Lexeme.EndsBefore ⟨.number, String.ofList text⟩ rest) :
    numeral (text ++ rest) = ⟨.ok .number, text, rest⟩ := by
  cases isNumeral with
  | @decimal body exponent isMantissa isExponent =>
      have stops := decimal_stops isMantissa isExponent ends
      have some : body ++ exponent ≠ [] :=
        List.append_ne_nil_of_left_ne_nil isMantissa.ne_nil exponent
      rw [numeral_of_decimal some (decimal_not_hexadecimal isMantissa isExponent)
        fun _ c head => noMark_of_stop (stops c head).1]
      exact decimal_of_is isMantissa isExponent stops
  | @hexadecimal radix digits isRadix run =>
      simp only [Lexeme.EndsBefore, String.toList_ofList] at ends
      simp only [List.mem_cons, List.not_mem_nil, or_false] at isRadix
      rcases isRadix with rfl | rfl <;>
        exact hexadecimal_of_is run fun c head => by simpa [Literal.hexDigits?] using ends c head

end ScalarC.Scanner
