import ScalarC.Proofs.Spelling.Joining

/-!
The faults of a scanner, told by the text they stand in front of. The scanner
stops at the first text that opens one, and everything before it is a source of
its own. A fault is put where its text begins, however far the scanner has read
into it.
-/

namespace ScalarC

/-- A character no lexeme starts with: a point with no digit behind it, half of an operator, or a
character that belongs to no lexeme and no gap. -/
inductive Scanner.IsStray : Char → List Char → Prop where
  | point {rest : List Char} : (∀ d ∈ rest.head?, d.isDigit = false) → IsStray '.' rest
  | half {c : Char} {rest : List Char} : c ∈ ['&', '|'] → rest.head? ≠ some c → IsStray c rest
  | foreign {c : Char} {rest : List Char} :
      isBlank c = false → isWordCharacter c = false → c ≠ '.' → c ∉ Lexeme.punctuationMarks →
      (∀ mark ∈ Lexeme.operators, c ∉ mark.toList) → IsStray c rest

open Scanner in
/-- How a text begins that has a fault in front. -/
inductive LexFault.Opens : LexFault → List Char → Prop where
  | openComment {body : List Char} :
      ¬ ['*', '/'] <:+: body → Opens .openComment ('/' :: '*' :: body)
  | hexWithoutDigits {radix rest : List Char} :
      radix ∈ [['0', 'x'], ['0', 'X']] → (∀ c ∈ rest.head?, isHexDigit c = false) →
      Opens (.hexWithoutDigits (String.ofList radix)) (radix ++ rest)
  | exponentWithoutDigits {body sign rest : List Char} {mark : Char} :
      IsMantissa body → mark ∈ ['e', 'E'] → sign ∈ [[], ['+'], ['-']] →
      (sign = [] → ∀ c ∈ rest.head?, c ≠ '+' ∧ c ≠ '-') →
      (∀ c ∈ rest.head?, c.isDigit = false) →
      Opens (.exponentWithoutDigits (String.ofList (body ++ mark :: sign)))
        (body ++ mark :: sign ++ rest)
  | numberRunsOn {body exponent rest : List Char} {next : Char} :
      IsMantissa body → IsExponent exponent → startsWord next = true →
      (exponent = [] → next ∉ ['e', 'E']) → (body ++ exponent = ['0'] → next ∉ ['x', 'X']) →
      Opens (.numberRunsOn (String.ofList (body ++ exponent)) next)
        (body ++ exponent ++ next :: rest)
  | strayCharacter {c : Char} {rest : List Char} :
      IsStray c rest → Opens (.strayCharacter c) (c :: rest)

/-- Whether a text that has tokens stops inside a line comment. -/
def EndsInComment (text : List Char) : Prop :=
  ∃ before body tokens, text = before ++ '/' :: '/' :: body ∧ '\n' ∉ body ∧
    tokenize (String.ofList before) = .ok tokens

namespace Scanner

/-! Faults in a gap. -/

theorem skipFrom_breaks {here : Location} {gap : Gap} {text : List Char} {error : LexError}
    (broken : (skipFrom here gap text).1 = .error error) :
    (∃ skipped body, text = skipped ++ '/' :: '*' :: body ∧ gap.Remains False skipped ∧
      ¬ ['*', '/'] <:+: body ∧ error = ⟨.openComment, here.afterAll skipped⟩) ∨
    ∃ opened, gap = .blockComment opened ∧ ¬ ['*', '/'] <:+: text ∧
      error = ⟨.openComment, opened⟩ := by
  fun_induction skipFrom here gap text with
  | case1 here text ih =>
      rcases ih broken with ⟨skipped, body, rfl, remains, unclosed, rfl⟩ | ⟨_, other, _⟩
      · rcases remains with ⟨comment, others, rfl, noFeed, isGap⟩ | ⟨last, _⟩
        · exact .inl ⟨_, body, rfl, .lineComment noFeed isGap, unclosed, rfl⟩
        · exact last.elim
      · cases other
  | case2 here text ih =>
      rcases ih broken with
        ⟨skipped, body, rfl, ⟨comment, others, rfl, closed, isGap⟩, unclosed, rfl⟩ |
        ⟨_, same, unclosed, rfl⟩
      · exact .inl ⟨_, body, rfl, .blockComment closed isGap, unclosed, rfl⟩
      · cases same
        exact .inl ⟨[], text, rfl, .nil, unclosed, rfl⟩
  | case3 here c text _ _ isBlank ih =>
      rcases ih broken with ⟨skipped, body, rfl, isGap, unclosed, rfl⟩ | ⟨_, other, _⟩
      · exact .inl ⟨c :: skipped, body, rfl, .blank isBlank isGap, unclosed, rfl⟩
      · cases other
  | case5 here c text ih =>
      rcases ih broken with ⟨skipped, body, rfl, remains, unclosed, rfl⟩ | ⟨_, other, _⟩
      · refine .inl ⟨c :: skipped, body, rfl, .inl ?_, unclosed, rfl⟩
        by_cases feed : c = '\n'
        · subst feed
          exact ⟨[], skipped, rfl, by simp, remains⟩
        · rw [if_neg feed] at remains
          rcases remains with ⟨comment, others, rfl, noFeed, isGap⟩ | ⟨last, _⟩
          · exact ⟨c :: comment, others, rfl, by simp [noFeed, Ne.symm feed], isGap⟩
          · exact last.elim
      · split at other <;> cases other
  | case6 here opened text ih =>
      rcases ih broken with ⟨skipped, body, rfl, isGap, unclosed, rfl⟩ | ⟨_, other, _⟩
      · exact .inl ⟨'*' :: '/' :: skipped, body, rfl, ⟨[], skipped, rfl, by simp, isGap⟩,
          unclosed, rfl⟩
      · cases other
  | case7 here opened c text notClosed ih =>
      have noMark (rest : List Char) (mark : ['*', '/'] <+: c :: rest)
          (same : ∀ d ∈ rest.head?, d ∈ text.head?) : False := by
        obtain ⟨_, equal⟩ := mark
        obtain ⟨rfl, rfl⟩ := List.cons.inj equal
        obtain ⟨others, rfl⟩ := List.head?_eq_some_iff.mp (same '/' rfl)
        exact notClosed others rfl rfl
      rcases ih broken with
        ⟨skipped, body, rfl, ⟨comment, others, rfl, closed, isGap⟩, unclosed, rfl⟩ |
        ⟨_, same, unclosed, rfl⟩
      · refine .inl ⟨c :: (comment ++ '*' :: '/' :: others), body, rfl,
          ⟨c :: comment, others, rfl, ?_, isGap⟩, unclosed, rfl⟩
        rw [List.infix_cons_iff]
        rintro (mark | inside)
        · exact noMark comment mark (by cases comment <;> simp)
        · exact closed inside
      · refine .inr ⟨_, same, ?_, rfl⟩
        rw [List.infix_cons_iff]
        rintro (mark | inside)
        · exact noMark text mark (by simp)
        · exact unclosed inside
  | case8 here opened =>
      cases broken
      exact .inr ⟨opened, rfl, by simp, rfl⟩
  | case4 | case9 | case10 => cases broken

theorem skipFrom_unclosed {body : List Char} (unclosed : ¬ ['*', '/'] <:+: body)
    (here opened : Location) :
    skipFrom here (.blockComment opened) body =
      (.error ⟨.openComment, opened⟩, ⟨[], here.afterAll body⟩) := by
  induction body generalizing here with
  | nil => rfl
  | cons c body ih =>
      rw [List.infix_cons_iff, not_or] at unclosed
      rw [skipFrom]
      · exact ih unclosed.2 (here.after c)
      · rintro others rfl rfl
        exact unclosed.1 ⟨others, rfl⟩

theorem skip_unclosed {scanner : Scanner} {gap body : List Char}
    (text : scanner.rest = gap ++ '/' :: '*' :: body) (isGap : IsGap False gap)
    (unclosed : ¬ ['*', '/'] <:+: body) :
    skip scanner = (.error ⟨.openComment, scanner.location.afterAll gap⟩,
      ⟨[], scanner.location.afterAll scanner.rest⟩) := by
  rw [skip, text, skipFrom_past isGap, skipFrom, skipFrom_unclosed unclosed,
    Location.afterAll_append]
  rfl

/-! Faults in a number. -/

theorem startsWord_of_character {c : Char} (inside : isWordCharacter c = true)
    (noDigit : c.isDigit = false) : startsWord c = true := by
  simp only [isWordCharacter, Char.isAlphanum, noDigit, Bool.or_false] at inside
  exact inside

theorem complete_breaks {taken rest : List Char} {fault : LexFault}
    (broken : (complete taken rest).result = .error fault) :
    ∃ next others, rest = next :: others ∧ isWordCharacter next = true ∧
      fault = .numberRunsOn (String.ofList taken) next := by
  unfold complete at broken
  split at broken
  · next next others =>
      split at broken
      · next inside =>
          cases broken
          exact ⟨next, others, rfl, inside, rfl⟩
      · cases broken
  · cases broken

theorem head_of_takeWhile_nil {inClass : Char → Bool} {text : List Char}
    (none : text.takeWhile inClass = []) : ∀ c ∈ text.head?, inClass c = false := by
  cases text with
  | nil => simp
  | cons c rest => simpa [List.takeWhile_cons] using none

theorem hexadecimal_breaks {radix text : List Char} {fault : LexFault}
    (broken : (hexadecimal radix text).result = .error fault) :
    fault = .hexWithoutDigits (String.ofList radix) ∧
      ∀ c ∈ text.head?, isHexDigit c = false := by
  unfold hexadecimal at broken
  by_cases empty : text.takeWhile isHexDigit = []
  · simp only [empty, List.isEmpty_nil, ↓reduceIte, List.append_nil, Except.error.injEq] at broken
    exact ⟨broken.symm, head_of_takeWhile_nil empty⟩
  · simp [empty] at broken

theorem exponentMark_none {c : Char} {rest : List Char} (none : exponentMark (c :: rest) = none) :
    c ∉ ['e', 'E'] := by
  intro isMark
  unfold exponentMark at none
  have isLetter : c = 'e' ∨ c = 'E' := by simpa using isMark
  simp only [decide_eq_true_eq, Bool.or_eq_true, isLetter, ↓reduceIte] at none
  split at none
  · split at none <;> cases none
  · cases none

theorem decimal_breaks {c : Char} {rest : List Char} {fault : LexFault}
    (starts : startsNumber c rest = true) (plain : Literal.hexDigits? (c :: rest) = none)
    (broken : (decimal (c :: rest)).result = .error fault) : fault.Opens (c :: rest) := by
  obtain ⟨isMantissa, stops⟩ := mantissa_reads starts
  have whole := mantissa_append (c :: rest)
  unfold decimal at broken
  generalize mantissa (c :: rest) = split at *
  obtain ⟨body, behind⟩ := split
  rw [← whole] at plain ⊢
  cases found : exponentMark behind with
  | none =>
      simp only [found] at broken
      obtain ⟨next, others, rfl, inside, rfl⟩ := complete_breaks broken
      have word := startsWord_of_character inside (stops next rfl).1
      have noRadix (zero : body ++ [] = ['0']) : next ∉ ['x', 'X'] := by
        rw [List.append_nil] at zero
        subst zero
        intro isRadix
        simp only [List.mem_cons, List.not_mem_nil, or_false] at isRadix
        rcases isRadix with rfl | rfl <;> cases plain
      have opens : LexFault.Opens _ (body ++ [] ++ next :: others) :=
        .numberRunsOn isMantissa .none word (fun _ => exponentMark_none found) noRadix
      simpa using opens
  | some pair =>
      obtain ⟨mark, text⟩ := pair
      obtain rfl := exponentMark_append found
      obtain ⟨letter, sign, rfl, isLetter, isSign, unsigned⟩ := exponentMark_reads found
      simp only [found] at broken
      by_cases empty : text.takeWhile Char.isDigit = []
      · simp only [empty, List.isEmpty_nil, ↓reduceIte, Except.error.injEq] at broken
        subst broken
        have opens := LexFault.Opens.exponentWithoutDigits isMantissa isLetter isSign unsigned
          (head_of_takeWhile_nil empty)
        simpa using opens
      · have present : (text.takeWhile Char.isDigit).isEmpty = false := by
          simpa [List.isEmpty_eq_false_iff] using empty
        simp only [present, Bool.false_eq_true, ↓reduceIte] at broken
        obtain ⟨next, others, left, inside, rfl⟩ := complete_breaks broken
        have noDigit : next.isDigit = false := head_dropWhile (by rw [left]; rfl)
        have longer : body ++ (letter :: sign ++ text.takeWhile Char.isDigit) ≠ ['0'] := by
          obtain ⟨d, digits, rfl⟩ := List.exists_cons_of_ne_nil isMantissa.ne_nil
          simp
        have power := IsExponent.power isLetter isSign ⟨empty, fun _ => mem_takeWhile⟩
        have opens : LexFault.Opens _ (body ++ (letter :: sign ++ text.takeWhile Char.isDigit) ++
            next :: others) :=
          .numberRunsOn isMantissa power (startsWord_of_character inside noDigit) nofun
            fun zero => absurd zero longer
        rw [← left] at opens
        simpa using opens

theorem numeral_breaks {c : Char} {rest : List Char} {fault : LexFault}
    (starts : startsNumber c rest = true) (broken : (numeral (c :: rest)).result = .error fault) :
    fault.Opens (c :: rest) := by
  unfold numeral at broken
  split at broken
  · next others same =>
      obtain ⟨rfl, noDigits⟩ := hexadecimal_breaks broken
      rw [same]
      exact .hexWithoutDigits (by simp) noDigits
  · next others same =>
      obtain ⟨rfl, noDigits⟩ := hexadecimal_breaks broken
      rw [same]
      exact .hexWithoutDigits (by simp) noDigits
  · next noSmall noLarge =>
      refine decimal_breaks starts ?_ broken
      unfold Literal.hexDigits?
      split
      · next others same => exact absurd same (noSmall others)
      · next others same => exact absurd same (noLarge others)
      · rfl

/-! Faults at a character. -/

theorem operators_single : ∀ mark ∈ Lexeme.operators, ∀ c ∈ mark.toList,
    String.ofList [c] ∈ Lexeme.operators ∨ c ∈ ['&', '|'] := by
  have checked : ∀ mark ∈ Lexeme.operators,
      mark.toList.all fun c => String.ofList [c] ∈ Lexeme.operators ∨ c ∈ ['&', '|'] := by
    decide
  simpa only [List.all_eq_true, decide_eq_true_eq] using checked

theorem operators_doubled : ∀ mark ∈ Lexeme.operators, ∀ c ∈ mark.toList.head?,
    c ∈ ['&', '|'] → mark.toList = [c, c] := by
  have checked : ∀ mark ∈ Lexeme.operators,
      mark.toList.head?.all fun c => c ∈ ['&', '|'] → mark.toList = [c, c] := by
    decide
  simpa only [Option.all_eq_true, decide_eq_true_eq, Option.mem_def] using checked

theorem operators_twice : ∀ c ∈ ['&', '|'], String.ofList [c, c] ∈ Lexeme.operators := by
  have checked : ['&', '|'].all fun c => String.ofList [c, c] ∈ Lexeme.operators := by decide
  simpa only [List.all_eq_true, decide_eq_true_eq] using checked

theorem operator?_none {text : List Char} :
    operator? text = none ↔ ∀ mark ∈ Lexeme.operators, ¬ mark.toList <+: text := by
  simp [operator?, List.find?_eq_none]

theorem operator_head {mark : String} (member : mark ∈ Lexeme.operators) {c : Char}
    {rest : List Char} (starts : mark.toList <+: c :: rest) : mark.toList.head? = some c := by
  obtain ⟨d, head, _⟩ := operators_start mark member
  obtain ⟨others, same⟩ := List.head?_eq_some_iff.mp head
  obtain ⟨_, equal⟩ := starts
  rw [same] at equal
  obtain ⟨rfl, _⟩ := List.cons.inj equal
  exact head

theorem isStray_of_none {c : Char} {rest : List Char} (noBlank : isBlank c = false)
    (noNumber : startsNumber c rest = false) (noWord : startsWord c = false)
    (noMark : c ∉ Lexeme.punctuationMarks) (none : operator? (c :: rest) = none) :
    IsStray c rest := by
  rw [operator?_none] at none
  simp only [startsNumber, Bool.or_eq_false_iff] at noNumber
  obtain ⟨noDigit, noPoint⟩ := noNumber
  by_cases point : c = '.'
  · subst point
    refine .point fun d head => ?_
    rw [Option.mem_def.mp head] at noPoint
    simpa using noPoint
  by_cases half : c ∈ ['&', '|']
  · refine .half half fun doubled => ?_
    obtain ⟨others, rfl⟩ := List.head?_eq_some_iff.mp doubled
    exact none _ (operators_twice c half) ⟨others, by simp⟩
  · refine .foreign noBlank ?_ point noMark fun mark member inside => ?_
    · by_contra word
      have starts := startsWord_of_character (Bool.not_eq_false _ ▸ word) noDigit
      rw [noWord] at starts
      cases starts
    · have single := (operators_single mark member c inside).resolve_right half
      exact none _ single ⟨rest, by simp⟩

theorem none_of_isStray {c : Char} {rest : List Char} (stray : IsStray c rest) :
    StartsNoGap (c :: rest) ∧ lexeme c rest = ⟨.error (.strayCharacter c), [], c :: rest⟩ := by
  have reads (noGap : isBlank c = false ∧ c ≠ '/') (noNumber : startsNumber c rest = false)
      (noWord : startsWord c = false) (noMark : c ∉ Lexeme.punctuationMarks)
      (none : ∀ mark ∈ Lexeme.operators, ¬ mark.toList <+: c :: rest) :
      StartsNoGap (c :: rest) ∧
        lexeme c rest = ⟨.error (.strayCharacter c), [], c :: rest⟩ := by
    constructor
    · rintro _ _ ⟨rfl, rfl⟩
      exact ⟨noGap.1, fun slash => absurd slash noGap.2⟩
    · simp only [lexeme, noNumber, noWord, noMark, Bool.false_eq_true, ↓reduceIte,
        operator?_none.mpr none]
  cases stray with
  | point noDigit =>
      refine reads (by decide) ?_ (by decide) (by decide) fun mark member starts => ?_
      · cases rest with
        | nil => rfl
        | cons d rest => simpa [startsNumber] using noDigit d rfl
      · obtain ⟨d, head, _, _, noPoint, _⟩ := operators_start mark member
        rw [operator_head member starts] at head
        exact noPoint (Option.some.inj head).symm
  | half isHalf single =>
      have plain : isBlank c = false ∧ c ≠ '/' ∧ c.isDigit = false ∧ c ≠ '.' ∧
          startsWord c = false ∧ c ∉ Lexeme.punctuationMarks := by
        simp only [List.mem_cons, List.not_mem_nil, or_false] at isHalf
        rcases isHalf with rfl | rfl <;> decide
      obtain ⟨noBlank, noSlash, noDigit, noPoint, noWord, noMark⟩ := plain
      refine reads ⟨noBlank, noSlash⟩ (by simp [startsNumber, noDigit, noPoint]) noWord noMark
        fun mark member starts => ?_
      have doubled := operators_doubled mark member c (operator_head member starts) isHalf
      obtain ⟨others, same⟩ := doubled ▸ starts
      obtain ⟨_, rfl⟩ := List.cons.inj same
      exact single rfl
  | foreign noBlank noCharacter noPoint noMark noOperator =>
      have noSlash : c ≠ '/' := by
        rintro rfl
        exact noOperator "/" (by decide) (by decide)
      have noDigit := digit_isWordCharacter noCharacter
      have noWord : startsWord c = false := by
        by_contra word
        have inside := startsWord_isWordCharacter (Bool.not_eq_false _ ▸ word)
        rw [noCharacter] at inside
        cases inside
      refine reads ⟨noBlank, noSlash⟩ (by simp [startsNumber, noDigit, noPoint]) noWord noMark
        fun mark member starts => ?_
      exact noOperator mark member (List.mem_of_mem_head? (operator_head member starts))

/-! One lexeme. -/

/-- Where something else than a lexeme is read, the text opens its fault. -/
theorem lexeme_breaks {c : Char} {rest : List Char} {fault : LexFault}
    (noBlank : isBlank c = false) (broken : (lexeme c rest).result = .error fault) :
    fault.Opens (c :: rest) := by
  unfold lexeme at broken
  split at broken
  · next starts => exact numeral_breaks starts broken
  next noNumber =>
  split at broken
  · cases broken
  next noWord =>
  split at broken
  · cases broken
  next noMark =>
  split at broken
  · cases broken
  next none =>
  cases broken
  exact .strayCharacter
    (isStray_of_none noBlank (by simpa using noNumber) (by simpa using noWord) noMark none)

theorem decimal_of_exponent {body sign rest : List Char} {mark : Char}
    (isMantissa : IsMantissa body) (isMark : mark ∈ ['e', 'E']) (isSign : sign ∈ [[], ['+'], ['-']])
    (unsigned : sign = [] → ∀ c ∈ rest.head?, c ≠ '+' ∧ c ≠ '-')
    (noDigit : ∀ c ∈ rest.head?, c.isDigit = false) :
    (decimal (body ++ mark :: sign ++ rest)).result =
      .error (.exponentWithoutDigits (String.ofList (body ++ mark :: sign))) := by
  have ends : mantissa (body ++ (mark :: sign ++ rest)) = (body, mark :: sign ++ rest) :=
    mantissa_of_mark isMantissa isMark
  have none : rest.takeWhile Char.isDigit = [] := takeWhile_run (List.forall_mem_nil _) noDigit
  rw [List.append_assoc, decimal]
  simp only [ends, exponentMark_of_mark isMark isSign unsigned, none, List.isEmpty_nil, ↓reduceIte]

theorem decimal_of_word {body exponent rest : List Char} {next : Char}
    (isMantissa : IsMantissa body) (isExponent : IsExponent exponent)
    (starts : startsWord next = true) (noMark : exponent = [] → next ∉ ['e', 'E']) :
    (decimal (body ++ exponent ++ next :: rest)).result =
      .error (.numberRunsOn (String.ofList (body ++ exponent)) next) := by
  have noDigit : next.isDigit = false := by
    have noNumber := startsWord_not_number starts []
    simpa [startsNumber] using noNumber
  have broken (taken : List Char) : (complete taken (next :: rest)).result =
      .error (.numberRunsOn (String.ofList taken) next) := by
    simp [complete, startsWord_isWordCharacter starts]
  cases isExponent with
  | none =>
      have ends : mantissa (body ++ next :: rest) = (body, next :: rest) := by
        refine mantissa_of_is isMantissa fun c head => ?_
        obtain rfl : next = c := by simpa using head
        refine ⟨noDigit, ?_⟩
        rintro rfl
        exact absurd starts (by decide)
      have none : exponentMark (next :: rest) = none := by
        have other : ¬ (next = 'e' ∨ next = 'E') := by simpa using noMark rfl
        simp [exponentMark, other]
      simp only [List.append_nil, decimal, ends, none, broken]
  | @power mark sign digits isMark isSign run =>
      have ends : mantissa (body ++ (mark :: sign ++ digits ++ next :: rest)) =
          (body, mark :: sign ++ digits ++ next :: rest) := mantissa_of_mark isMantissa isMark
      have stops : ∀ c ∈ (next :: rest).head?, c.isDigit = false := by simpa using noDigit
      have present : digits.isEmpty = false := List.isEmpty_eq_false_iff.mpr run.1
      rw [List.append_assoc body, decimal]
      simp only [ends, exponentMark_of_power isMark isSign run, takeWhile_run run.2 stops,
        dropWhile_run run.2 stops, present, Bool.false_eq_true, ↓reduceIte, broken]
      simp

theorem hexadecimal_of_none {rest : List Char} (noDigit : ∀ c ∈ rest.head?, isHexDigit c = false)
    (radix : List Char) : (hexadecimal radix rest).result =
      .error (.hexWithoutDigits (String.ofList radix)) := by
  have none : rest.takeWhile isHexDigit = [] := takeWhile_run (List.forall_mem_nil _) noDigit
  simp [hexadecimal, none]

theorem lexeme_of_number {c : Char} {rest : List Char} {fault : LexFault}
    (starts : startsNumber c rest = true) (broken : (numeral (c :: rest)).result = .error fault) :
    StartsNoGap (c :: rest) ∧ (lexeme c rest).result = .error fault := by
  refine ⟨startsNoGap_of_number starts, ?_⟩
  rw [lexeme, if_pos starts, broken]

/-- A text that opens a fault starts with a comment that is not closed, or the scanner finds the
fault where it reads a lexeme. -/
theorem lexeme_of_opens {fault : LexFault} {text : List Char} (opens : fault.Opens text) :
    (∃ body, fault = .openComment ∧ text = '/' :: '*' :: body ∧ ¬ ['*', '/'] <:+: body) ∨
    ∃ c rest, text = c :: rest ∧ StartsNoGap (c :: rest) ∧
      (lexeme c rest).result = .error fault := by
  -- What starts with a mantissa is no hexadecimal numeral, so it is read as a decimal one.
  have decimals {body exponent rest : List Char} (isMantissa : IsMantissa body)
      (isExponent : IsExponent exponent)
      (noMark : body ++ exponent = ['0'] → ∀ c ∈ rest.head?, c ≠ 'x' ∧ c ≠ 'X')
      (broken : (decimal (body ++ exponent ++ rest)).result = .error fault) :
      ∃ c others, body ++ exponent ++ rest = c :: others ∧ StartsNoGap (c :: others) ∧
        (lexeme c others).result = .error fault := by
    have isNumeral := IsNumeral.decimal isMantissa isExponent
    have some : body ++ exponent ≠ [] :=
      List.append_ne_nil_of_left_ne_nil isMantissa.ne_nil exponent
    have plain := decimal_not_hexadecimal isMantissa isExponent
    rw [← numeral_of_decimal some plain noMark] at broken
    obtain ⟨c, others, same, starts⟩ := startsNumber_of_numeral isNumeral
    rw [same, List.cons_append] at broken ⊢
    exact ⟨c, others ++ rest, rfl, lexeme_of_number (starts rest) broken⟩
  cases opens with
  | openComment unclosed => exact .inl ⟨_, rfl, rfl, unclosed⟩
  | @hexWithoutDigits radix rest isRadix noDigit =>
      have broken := hexadecimal_of_none noDigit radix
      simp only [List.mem_cons, List.not_mem_nil, or_false] at isRadix
      rcases isRadix with rfl | rfl <;>
        exact .inr ⟨'0', _, rfl, lexeme_of_number rfl broken⟩
  | @exponentWithoutDigits body sign rest mark isMantissa isMark isSign unsigned noDigit =>
      have broken : (decimal (body ++ [] ++ (mark :: sign ++ rest))).result =
          .error (.exponentWithoutDigits (String.ofList (body ++ mark :: sign))) := by
        simpa using decimal_of_exponent isMantissa isMark isSign unsigned noDigit
      have noRadix : ∀ c ∈ (mark :: sign ++ rest).head?, c ≠ 'x' ∧ c ≠ 'X' := by
        intro c head
        obtain rfl : mark = c := by simpa using head
        constructor <;> rintro rfl <;> exact absurd isMark (by decide)
      have read := decimals isMantissa .none (fun _ => noRadix) broken
      exact .inr (by simpa using read)
  | @numberRunsOn body exponent rest next isMantissa isExponent starts noMark noRadix =>
      refine .inr (decimals isMantissa isExponent (fun zero c head => ?_)
        (decimal_of_word isMantissa isExponent starts noMark))
      obtain rfl : next = c := by simpa using head
      simpa using noRadix zero
  | strayCharacter stray =>
      obtain ⟨noGap, read⟩ := none_of_isStray stray
      exact .inr ⟨_, _, rfl, noGap, by rw [read]⟩

end Scanner

end ScalarC
