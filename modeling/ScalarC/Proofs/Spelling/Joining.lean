import ScalarC.Proofs.Outcome
import ScalarC.Proofs.Spelling.Cutting

/-!
Lexemes written one behind the other, with a blank at least between any two of
them, are read back as they are. So the tokens of a source can be written anew
without their gaps.
-/

namespace ScalarC

namespace Scanner

theorem IsGap.mono {last final : Prop} {gap : List Char} (isGap : IsGap last gap)
    (implies : last → final) : IsGap final gap := by
  induction isGap with
  | nil => exact .nil
  | blank isBlank _ ih => exact .blank isBlank ih
  | lineComment noFeed _ ih => exact .lineComment noFeed ih
  | blockComment closed _ ih => exact .blockComment closed ih
  | openComment atEnd noFeed => exact .openComment (implies atEnd) noFeed

/-- A gap between two lexemes: a blank, and any blanks and complete comments behind it. -/
def IsSeparator (text : List Char) : Prop :=
  ∃ c gap, text = c :: gap ∧ isBlank c = true ∧ IsGap False gap

theorem IsSeparator.isGap {text : List Char} (separates : IsSeparator text) :
    IsGap False text := by
  obtain ⟨c, gap, rfl, isBlank, isGap⟩ := separates
  exact .blank isBlank isGap

theorem IsSeparator.head {text rest : List Char} (separates : IsSeparator text) :
    ∀ c ∈ (text ++ rest).head?, isBlank c = true := by
  obtain ⟨c, gap, rfl, isBlank, _⟩ := separates
  rintro d head
  obtain rfl : c = d := by simpa using head
  exact isBlank

theorem mem_of_isBlank {c : Char} (blank : isBlank c = true) : c ∈ [' ', '\t', '\r', '\n'] := by
  simp only [isBlank, Bool.or_eq_true, decide_eq_true_eq] at blank
  simp only [List.mem_cons, List.not_mem_nil, or_false]
  grind

end Scanner

theorem Lexeme.operators_not_blank : ∀ mark ∈ operators,
    mark.toList.any Scanner.isBlank = false := by
  decide

theorem Lexeme.Spelled.endsBefore {spelled : Lexeme} (belongs : spelled.Spelled)
    {rest : List Char} (blank : ∀ c ∈ rest.head?, Scanner.isBlank c = true) :
    spelled.EndsBefore rest := by
  have ends {inClass : Char → Bool}
      (none : [' ', '\t', '\r', '\n'].any inClass = false) (c : Char)
      (head : c ∈ rest.head?) : inClass c = false := by
    have outside := List.any_eq_false.mp none c (Scanner.mem_of_isBlank (blank c head))
    simpa using outside
  cases belongs with
  | keyword | identifier => exact ends (by decide)
  | number =>
      intro c head
      have noHex : Scanner.isHexDigit c = false := ends (by decide) c head
      have noWord : Scanner.isWordCharacter c = false := ends (by decide) c head
      have noPoint : c ≠ '.' := by
        rintro rfl
        exact absurd (blank '.' head) (by decide)
      simp [noHex, noWord, noPoint]
  | @operator text member =>
      constructor
      · intro mark isMark starts
        by_contra longer
        have within : text.toList <+: mark.toList :=
          List.prefix_of_prefix_length_le (List.prefix_append _ _) starts
            (Nat.le_of_lt (Nat.not_le.mp longer))
        -- A longer operator would go on with the blank.
        obtain ⟨more, same⟩ := within
        rw [← same, List.prefix_append_right_inj] at starts
        cases more with
        | nil =>
            have equal : text.length = mark.length := by
              rw [← String.length_toList, ← String.length_toList, ← same, List.append_nil]
            exact longer (Nat.le_of_eq equal.symm)
        | cons c more =>
            obtain ⟨others, rfl⟩ := starts
            have noBlank := List.any_eq_false.mp (operators_not_blank mark isMark) c
              (by rw [← same]; simp)
            exact noBlank (blank c rfl)
      · rintro rfl c head
        constructor <;> rintro rfl <;> exact absurd (blank _ head) (by decide)
  | punctuation => trivial

/-- Lexemes one behind the other, with separators between them and perhaps behind the last. -/
inductive Writes : List Lexeme → List Char → Prop where
  | nil : Writes [] []
  | last {lexeme : Lexeme} : lexeme.Spelled → Writes [lexeme] lexeme.text.toList
  | cons {lexeme : Lexeme} {lexemes : List Lexeme} {gap text : List Char} :
      lexeme.Spelled → Scanner.IsSeparator gap → Writes lexemes text →
      Writes (lexeme :: lexemes) (lexeme.text.toList ++ gap ++ text)

theorem Writes.cut {lexemes : List Lexeme} {text : List Char} (writes : Writes lexemes text)
    {lead : List Char} (isGap : Scanner.IsGap False lead) (before : List Char) :
    ∃ tokens, Cut before (lead ++ text) tokens ∧
      tokens.map Token.toLexeme = lexemes ++ [Lexeme.endOfInput] := by
  induction writes generalizing lead before with
  | nil =>
      rw [List.append_nil]
      exact ⟨_, .finish (isGap.mono False.elim), rfl⟩
  | @last lexeme spelled =>
      have token : Cut before _ _ :=
        Cut.token isGap spelled (spelled.endsBefore (by simp)) (.finish .nil)
      rw [List.append_nil] at token
      exact ⟨_, token, rfl⟩
  | @cons lexeme lexemes gap text spelled separates _ ih =>
      obtain ⟨tokens, cut, same⟩ := ih separates.isGap (before ++ lead ++ lexeme.text.toList)
      have token := Cut.token isGap spelled (spelled.endsBefore separates.head) cut
      refine ⟨_, by simpa using token, ?_⟩
      rw [List.map_cons, same, List.cons_append]

theorem Cut.spelled {before text : List Char} {tokens : List Token}
    (cut : Cut before text tokens) :
    ∃ read finish, tokens = read ++ [finish] ∧ finish.toLexeme = Lexeme.endOfInput ∧
      ∀ token ∈ read, token.toLexeme.Spelled := by
  induction cut with
  | finish => exact ⟨[], _, rfl, rfl, by simp⟩
  | token _ spelled _ _ ih =>
      obtain ⟨read, finish, rfl, ends, others⟩ := ih
      exact ⟨_ :: read, finish, rfl, ends, List.forall_mem_cons.mpr ⟨spelled, others⟩⟩

theorem isSeparator_space : Scanner.IsSeparator [' '] :=
  ⟨' ', [], rfl, rfl, .nil⟩

theorem writes_joined {lexemes : List Lexeme} (spelled : ∀ lexeme ∈ lexemes, lexeme.Spelled) :
    Writes lexemes (" ".intercalate (lexemes.map Lexeme.text)).toList ∧
      Writes lexemes (" ".intercalate (lexemes.map Lexeme.text ++ [""])).toList := by
  have space : " ".toList = [' '] := rfl
  induction lexemes with
  | nil => exact ⟨.nil, .nil⟩
  | cons lexeme lexemes ih =>
      obtain ⟨first, others⟩ := List.forall_mem_cons.mp spelled
      have rest := ih others
      cases lexemes with
      | nil =>
          have closed := Writes.cons first isSeparator_space .nil
          refine ⟨?_, ?_⟩
          · simpa using Writes.last first
          · simpa [String.toList_intercalate, space] using closed
      | cons second lexemes =>
          refine ⟨?_, ?_⟩
          · have writes := Writes.cons first isSeparator_space rest.1
            simpa [String.toList_intercalate, space] using writes
          · have writes := Writes.cons first isSeparator_space rest.2
            simpa [String.toList_intercalate, space] using writes

/-- Whatever is written is read back, and the texts of the tokens of a source, joined by single
spaces, are read as the same lexemes again. -/
theorem tokenize_written :
    (∀ lead lexemes text, Scanner.IsGap False lead → Writes lexemes text →
      ∃ tokens, tokenize (String.ofList (lead ++ text)) = .ok tokens ∧
        tokens.map Token.toLexeme = lexemes ++ [Lexeme.endOfInput]) ∧
    ∀ source tokens, tokenize source = .ok tokens →
      ∀ texts ∈ [tokens.map fun token => token.text, tokens.dropLast.map fun token => token.text],
        ∃ again, tokenize (" ".intercalate texts) = .ok again ∧
          again.map Token.toLexeme = tokens.map Token.toLexeme := by
  have written {lead text : List Char} {lexemes : List Lexeme} (isGap : Scanner.IsGap False lead)
      (writes : Writes lexemes text) {source : String} (same : source.toList = lead ++ text) :
      ∃ tokens, tokenize source = .ok tokens ∧
        tokens.map Token.toLexeme = lexemes ++ [Lexeme.endOfInput] := by
    obtain ⟨tokens, cut, lexemes⟩ := writes.cut isGap []
    exact ⟨tokens, tokens_of_cut cut same rfl, lexemes⟩
  constructor
  · intro lead lexemes text isGap writes
    exact written isGap writes String.toList_ofList
  · intro source tokens read texts member
    obtain ⟨lexed, finish, rfl, ends, spelled⟩ :=
      (cut_of_tokens (Scanner.ofString source) [] tokens rfl read).spelled
    have belong : ∀ lexeme ∈ lexed.map Token.toLexeme, lexeme.Spelled := by simpa using spelled
    obtain ⟨joined, closed⟩ := writes_joined belong
    have empty : finish.text = "" := congrArg Lexeme.text ends
    rw [List.map_append, List.map_singleton, ends]
    simp only [List.dropLast_concat, List.map_append, List.map_singleton, empty, List.mem_cons,
      List.not_mem_nil, or_false] at member
    rcases member with rfl | rfl
    · exact written .nil closed (by simp [Function.comp_def])
    · exact written .nil joined (by simp [Function.comp_def])

section Sample

private def answer : List Lexeme :=
  [⟨.keyword, "int"⟩, ⟨.identifier, "x"⟩, ⟨.operator, "="⟩, ⟨.number, "0x2A"⟩,
    ⟨.punctuation, ";"⟩]

private def starred : List Char := '/' :: '*' :: ['/', '*', '\n', '/', '/'] ++ '*' :: '/' :: []

private def lined : List Char := '/' :: '/' :: ['*', 'é'] ++ '\n' :: []

private def answerText : List Char :=
  "int".toList ++ ['\t'] ++ ("x".toList ++ (' ' :: starred) ++ ("=".toList ++ ('\r' :: lined) ++
    ("0x2A".toList ++ ['\n'] ++ ";".toList)))

private theorem starred_isGap : Scanner.IsGap False starred := by
  exact .blockComment (by decide) .nil

private theorem lined_isGap : Scanner.IsGap False lined := by
  exact .lineComment (by decide) .nil

private theorem answer_writes : Writes answer answerText := by
  have number : Scanner.IsNumeral "0x2A".toList := by
    have digits : Scanner.IsRun Scanner.isHexDigit ['2', 'A'] :=
      ⟨by decide, List.all_eq_true.mp (by decide)⟩
    have spelled : "0x2A".toList = ['0', 'x'] ++ ['2', 'A'] := by decide
    rw [spelled]
    exact .hexadecimal (by decide) digits
  have int : Scanner.IsWord "int".toList :=
    ⟨'i', ['n', 't'], by decide, by decide, List.all_eq_true.mp (by decide)⟩
  have x : Scanner.IsWord "x".toList := ⟨'x', [], by decide, by decide, nofun⟩
  refine .cons (.keyword int (by decide)) ⟨_, _, rfl, by decide, .nil⟩ ?_
  refine .cons (.identifier x (by decide)) ⟨_, _, rfl, by decide, starred_isGap⟩ ?_
  refine .cons (.operator (by decide)) ⟨_, _, rfl, by decide, lined_isGap⟩ ?_
  refine .cons (.number number) ⟨_, _, rfl, by decide, .nil⟩ ?_
  exact .last (.punctuation (c := ';') (by decide))

theorem tokenize_written_answer :
    (Scanner.IsGap False lined ∧ Writes answer answerText ∧
      ∃ tokens, tokenize (String.ofList (lined ++ answerText)) = .ok tokens ∧
        tokens.map Token.toLexeme = answer ++ [Lexeme.endOfInput]) ∧
    ∃ tokens, tokenize "int x=0x2A;" = .ok tokens ∧
      tokens.map Token.toLexeme = answer ++ [Lexeme.endOfInput] ∧
      ∃ again, tokenize "int x = 0x2A ; " = .ok again ∧
        again.map Token.toLexeme = tokens.map Token.toLexeme := by
  constructor
  · exact ⟨lined_isGap, answer_writes,
      tokenize_written.1 lined answer answerText lined_isGap answer_writes⟩
  · have scanned : (tokenize "int x=0x2A;").toOption.map (List.map Token.toLexeme) =
        some (answer ++ [Lexeme.endOfInput]) := by
      decide +kernel
    obtain ⟨tokens, read, lexemes⟩ := Option.map_eq_some_iff.mp scanned
    have texts : tokens.map (fun token => token.text) = ["int", "x", "=", "0x2A", ";", ""] := by
      have mapped := congrArg (List.map Lexeme.text) lexemes
      rw [List.map_map] at mapped
      exact mapped
    have joined : " ".intercalate ["int", "x", "=", "0x2A", ";", ""] = "int x = 0x2A ; " := by
      decide +kernel
    refine ⟨tokens, toOption_eq_some.mp read, lexemes, ?_⟩
    rw [← joined, ← texts]
    exact tokenize_written.2 _ tokens (toOption_eq_some.mp read) _ (by simp)

end Sample

end ScalarC
