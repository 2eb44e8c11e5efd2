import ScalarC.Proofs.Spelling.Breaks

/-!
Where numbers end in a source. Behind a decimal numeral no word character stands:
a numeral that runs into one, and is not longer for it, is a fault. A hexadecimal
numeral ends in front of any character but its digits, and a word may begin there.
-/

namespace ScalarC

namespace Location

theorem eq_nil_of_behind_append {before more : List Char}
    (same : behind (before ++ more) = behind before) : more = [] := by
  simp only [behind, List.count_append, List.reverse_append, Location.mk.injEq] at same
  obtain ⟨lines, columns⟩ := same
  have noFeed : '\n' ∉ more := List.count_eq_zero.mp (by omega)
  have plain : ∀ c ∈ more.reverse, decide (c ≠ '\n') = true := by
    intro c member
    rw [decide_eq_true_eq]
    rintro rfl
    exact noFeed (List.mem_reverse.mp member)
  rw [List.takeWhile_append_of_pos plain, List.length_append, List.length_reverse] at columns
  exact List.length_eq_zero_iff.mp (by omega)

theorem behind_injective {text first second : List Char} (one : first <+: text)
    (other : second <+: text) (same : behind first = behind second) : first = second := by
  rcases List.prefix_or_prefix_of_prefix one other with ⟨more, rfl⟩ | ⟨more, rfl⟩
  · rw [eq_nil_of_behind_append same.symm, List.append_nil]
  · rw [eq_nil_of_behind_append same, List.append_nil]

end Location

theorem CutBefore.single (before : List Char) {rest : List Char} {lexeme : Lexeme}
    (spelled : lexeme.Spelled) (ends : lexeme.EndsBefore rest) :
    CutBefore rest before lexeme.text.toList [⟨lexeme, Location.behind before⟩] := by
  have cut : CutBefore rest before ([] ++ lexeme.text.toList ++ []) _ :=
    .token .nil spelled ends (.gap .nil)
  simpa using cut

theorem CutBefore.follow {text first before front : List Char} {read : List Token}
    (cut : CutBefore (text ++ first) before front read) (some : text ≠ []) (second : List Char) :
    CutBefore (text ++ second) before front read := by
  induction cut with
  | gap isGap => exact .gap isGap
  | @token before gap front lexeme tokens isGap spelled ends _ ih =>
      rw [← List.append_assoc] at ends
      have alone := ends.of_append.append spelled (List.append_ne_nil_of_right_ne_nil front some)
        second
      rw [List.append_assoc] at alone
      exact .token isGap spelled alone ih

theorem Cut.parted {before text : List Char} {read others : List Token} {token : Token}
    (cut : Cut before text (read ++ token :: others)) (further : others ≠ []) :
    ∃ front rest, text = front ++ token.text.toList ++ rest ∧
      token.location = Location.behind (before ++ front) ∧ token.toLexeme.Spelled ∧
      token.toLexeme.EndsBefore rest ∧ CutBefore (token.text.toList ++ rest) before front read ∧
      Cut (before ++ front ++ token.text.toList) rest others := by
  generalize same : read ++ token :: others = tokens at cut
  induction cut generalizing read with
  | finish =>
      cases read with
      | nil => exact absurd (List.cons.inj same).2 further
      | cons first read => simp at same
  | @token before gap rest lexeme tokens isGap spelled ends behind ih =>
      cases read with
      | nil =>
          obtain ⟨rfl, rfl⟩ := List.cons.inj same
          exact ⟨gap, rest, rfl, rfl, spelled, ends, .gap isGap, behind⟩
      | cons first read =>
          obtain rfl := (List.cons.inj same).1
          obtain ⟨front, left, rfl, place, belongs, stops, within, others⟩ :=
            ih (List.cons.inj same).2
          refine ⟨gap ++ lexeme.text.toList ++ front, left, by simp, by simpa using place,
            belongs, stops, .token isGap spelled ?_ within, by simpa using others⟩
          simpa using ends

theorem Cut.split_at {before text : List Char} {tokens : List Token} {token : Token}
    (cut : Cut before text tokens) (member : token ∈ tokens) (real : token.kind ≠ .endOfInput) :
    ∃ read others, tokens = read ++ token :: others ∧ others ≠ [] := by
  obtain ⟨read, others, rfl⟩ := List.append_of_mem member
  refine ⟨read, others, rfl, ?_⟩
  rintro rfl
  obtain ⟨_, ends⟩ := cut.ends
  obtain ⟨_, last⟩ := List.append_inj' ends rfl
  obtain ⟨rfl, _⟩ := List.cons.inj last
  exact real rfl

/-- What is in a source at the place of a token is that token, with the text before cut into the
tokens before it. -/
theorem tokenize_parted {before rest : List Char} {kind : TokenKind} {text : String}
    {read others : List Token}
    (done : tokenize (String.ofList (before ++ text.toList ++ rest)) =
      .ok (read ++ ⟨⟨kind, text⟩, Location.behind before⟩ :: others))
    (further : others ≠ []) :
    Lexeme.Spelled ⟨kind, text⟩ ∧ Lexeme.EndsBefore ⟨kind, text⟩ rest ∧
      CutBefore (text.toList ++ rest) [] before read := by
  have cut := cut_of_tokens (Scanner.ofString _) [] _ rfl done
  obtain ⟨front, back, split, place, spelled, ends, within, _⟩ := cut.parted further
  simp only [Scanner.ofString, String.toList_ofList] at split
  have leads (lead back : List Char) : lead <+: lead ++ text.toList ++ back := by
    rw [List.append_assoc]
    exact List.prefix_append _ _
  obtain rfl : before = front :=
    Location.behind_injective (leads before rest) (split ▸ leads front back) place
  obtain rfl : rest = back := List.append_cancel_left split
  exact ⟨spelled, ends, within⟩

namespace Scanner

/-! Numerals that run into a word character. -/

theorem IsRun.snoc {inClass : Char → Bool} {text : List Char} {c : Char}
    (all : ∀ d ∈ text, inClass d = true) (inside : inClass c = true) :
    IsRun inClass (text ++ [c]) :=
  ⟨by simp, List.forall_mem_append.mpr ⟨all, List.forall_mem_singleton.mpr inside⟩⟩

theorem isNumeral_of_digit {body exponent : List Char} {c : Char} (isMantissa : IsMantissa body)
    (isExponent : IsExponent exponent) (digit : c.isDigit = true) :
    IsNumeral (body ++ exponent ++ [c]) := by
  cases isExponent with
  | none =>
      cases isMantissa with
      | whole run => simpa using IsNumeral.decimal (.whole (.snoc run.2 digit)) .none
      | @pointed whole fraction run =>
          have longer : IsRun Char.isDigit (whole ++ (fraction ++ [c])) := by
            simpa using IsRun.snoc run.2 digit
          simpa using IsNumeral.decimal (.pointed longer) .none
  | power isMark isSign run =>
      simpa using IsNumeral.decimal isMantissa (.power isMark isSign (.snoc run.2 digit))

/-- A numeral that does not go on in what follows. -/
def IsLongest (text rest : List Char) : Prop :=
  ∀ more, more <+: rest → IsNumeral (text ++ more) → more = []

theorem isLongest_of_foreign {next : Char}
    (foreign : (isHexDigit next || next ∈ ['x', 'X', '.', '+', '-']) = false)
    (text rest : List Char) : IsLongest text (next :: rest) := by
  intro more within isNumeral
  cases more with
  | nil => rfl
  | cons c more =>
      obtain ⟨rfl, _⟩ := List.cons_prefix_cons.mp within
      rw [isNumeral.characters c (by simp)] at foreign
      cases foreign

theorem opens_of_mark {body rest : List Char} {next : Char} (isMantissa : IsMantissa body)
    (isMark : next ∈ ['e', 'E']) (longest : IsLongest body (next :: rest)) :
    ∃ fault, LexFault.Opens fault (body ++ next :: rest) := by
  cases found : exponentMark (next :: rest) with
  | none => exact absurd isMark (exponentMark_none found)
  | some pair =>
      obtain ⟨taken, behind⟩ := pair
      have whole := exponentMark_append found
      obtain ⟨letter, sign, rfl, isLetter, isSign, unsigned⟩ := exponentMark_reads found
      have empty : behind.takeWhile Char.isDigit = [] := by
        by_contra some
        have power := IsExponent.power isLetter isSign ⟨some, fun _ => mem_takeWhile⟩
        have within : letter :: sign ++ behind.takeWhile Char.isDigit <+: next :: rest := by
          rw [← whole]
          exact (List.prefix_append_right_inj _).mpr (List.takeWhile_prefix _)
        exact absurd (longest _ within (.decimal isMantissa power)) (by simp)
      rw [← whole]
      have opens := LexFault.Opens.exponentWithoutDigits isMantissa isLetter isSign unsigned
        (head_of_takeWhile_nil empty)
      exact ⟨_, by simpa using opens⟩

theorem opens_of_radix {rest : List Char} {next : Char} (isRadix : next ∈ ['x', 'X'])
    (longest : IsLongest ['0'] (next :: rest)) :
    ∃ fault, LexFault.Opens fault ('0' :: next :: rest) := by
  have radix : ['0', next] ∈ [['0', 'x'], ['0', 'X']] := by simpa using isRadix
  have empty : rest.takeWhile isHexDigit = [] := by
    by_contra some
    have within : next :: rest.takeWhile isHexDigit <+: next :: rest := by
      simpa using List.takeWhile_prefix isHexDigit
    have longer := IsNumeral.hexadecimal radix ⟨some, fun _ => mem_takeWhile⟩
    exact absurd (longest _ within (by simpa using longer)) (by simp)
  exact ⟨_, .hexWithoutDigits radix (head_of_takeWhile_nil empty)⟩

theorem opens_of_word {text rest : List Char} {next : Char} (isNumeral : IsNumeral text)
    (plain : Literal.hexDigits? text = none) (word : isWordCharacter next = true)
    (longest : IsLongest text (next :: rest)) :
    ∃ fault, LexFault.Opens fault (text ++ next :: rest) := by
  cases isNumeral with
  | @hexadecimal radix digits isRadix =>
      simp only [List.mem_cons, List.not_mem_nil, or_false] at isRadix
      rcases isRadix with rfl | rfl <;> cases plain
  | @decimal body exponent isMantissa isExponent =>
      have noDigit : next.isDigit = false := by
        by_contra digit
        have longer := isNumeral_of_digit isMantissa isExponent (Bool.not_eq_false _ ▸ digit)
        exact absurd (longest [next] (by simp) longer) (by simp)
      -- A letter may still be the mark of an exponent, or of a base behind a zero.
      by_cases mark : exponent = [] ∧ next ∈ ['e', 'E']
      · obtain ⟨rfl, isMark⟩ := mark
        rw [List.append_nil] at longest ⊢
        exact opens_of_mark isMantissa isMark longest
      by_cases radix : body ++ exponent = ['0'] ∧ next ∈ ['x', 'X']
      · obtain ⟨zero, isRadix⟩ := radix
        rw [zero] at longest ⊢
        exact opens_of_radix isRadix longest
      · exact ⟨_, .numberRunsOn isMantissa isExponent (startsWord_of_character word noDigit)
          (fun none isMark => mark ⟨none, isMark⟩) fun zero isRadix => radix ⟨zero, isRadix⟩⟩

theorem endsBefore_of_longest {text : String} {next : Char} {rest : List Char}
    (isNumeral : IsNumeral text.toList)
    (hexadecimal : (Literal.hexDigits? text.toList).isSome = true)
    (longest : IsLongest text.toList (next :: rest)) :
    Lexeme.EndsBefore ⟨.number, text⟩ (next :: rest) := by
  have noDigit : isHexDigit next = false := by
    by_contra digit
    refine absurd (longest [next] (by simp) ?_) (by simp)
    generalize text.toList = characters at isNumeral hexadecimal ⊢
    cases isNumeral with
    | decimal isMantissa isExponent =>
        rw [decimal_not_hexadecimal isMantissa isExponent] at hexadecimal
        cases hexadecimal
    | hexadecimal isRadix run =>
        rw [List.append_assoc]
        exact .hexadecimal isRadix (.snoc run.2 (Bool.not_eq_false _ ▸ digit))
  intro c head
  obtain rfl : next = c := by simpa using head
  rwa [if_pos hexadecimal]

end Scanner

theorem Lexeme.Spelled.isNumeral {text : String} (spelled : Spelled ⟨.number, text⟩) :
    Scanner.IsNumeral text.toList := by
  cases spelled with
  | number isNumeral => exact isNumeral

theorem Lexeme.EndsBefore.hexadecimal_of_word {text : String} {next : Char} {rest : List Char}
    (ends : EndsBefore ⟨.number, text⟩ (next :: rest))
    (word : Scanner.isWordCharacter next = true) :
    (Literal.hexDigits? text.toList).isSome = true ∧ Scanner.isHexDigit next = false := by
  have stops := ends next rfl
  split at stops
  · next hexadecimal => exact ⟨hexadecimal, stops⟩
  · rw [stops.1] at word
    cases word

section Last

variable {before : List Char} {text : String} {read : List Token} {finish : Token}
  (done : tokenize (String.ofList (before ++ text.toList)) =
    .ok (read ++ [⟨⟨.number, text⟩, Location.behind before⟩, finish]))
include done

/-- Where a number ends a source, it is a numeral, and what is in front of it is cut there whatever
comes behind. -/
theorem numeral_of_last : Scanner.IsNumeral text.toList ∧
    ∀ back, CutBefore (text.toList ++ back) [] before read := by
  obtain ⟨spelled, _, within⟩ :=
    tokenize_parted (by rwa [List.append_nil]) (List.cons_ne_nil finish [])
  have some : text.toList ≠ [] := by
    obtain ⟨c, others, same, _⟩ := Scanner.startsNumber_of_numeral spelled.isNumeral
    simp [same]
  exact ⟨spelled.isNumeral, within.follow some⟩

theorem tokenize_of_last (back : List Char) :
    tokenize (String.ofList (before ++ text.toList ++ back)) =
      (Scanner.tokens ⟨text.toList ++ back, Location.behind before⟩).1.map (read ++ ·) :=
  ((numeral_of_last done).2 back).tokens (by simp [Scanner.ofString]) rfl

end Last

/-- A number of a source is followed by no word character, unless it is hexadecimal; then what
follows is none of its digits. Behind a number that ends a source, and that does not go on in it, a
word character is a fault at the place of a decimal one, while behind a hexadecimal one the scanner
goes on as if the number had ended there. -/
theorem numbers_end (before : List Char) (text : String) (next : Char) (rest : List Char)
    (word : Scanner.isWordCharacter next = true) :
    (∀ tokens, tokenize (String.ofList (before ++ text.toList ++ next :: rest)) = .ok tokens →
      ⟨⟨.number, text⟩, Location.behind before⟩ ∈ tokens →
      (Literal.hexDigits? text.toList).isSome = true ∧ Scanner.isHexDigit next = false) ∧
    ∀ read finish,
      tokenize (String.ofList (before ++ text.toList)) =
        .ok (read ++ [⟨⟨.number, text⟩, Location.behind before⟩, finish]) →
      Scanner.IsLongest text.toList (next :: rest) →
      (Literal.hexDigits? text.toList = none →
        ∃ fault, LexFault.Opens fault (text.toList ++ next :: rest) ∧
          tokenize (String.ofList (before ++ text.toList ++ next :: rest)) =
            .error ⟨fault, Location.behind before⟩) ∧
      ((Literal.hexDigits? text.toList).isSome = true →
        tokenize (String.ofList (before ++ text.toList ++ next :: rest)) =
          (Scanner.tokens ⟨next :: rest, Location.behind (before ++ text.toList)⟩).1.map
            (read ++ ⟨⟨.number, text⟩, Location.behind before⟩ :: ·)) := by
  constructor
  · intro tokens read member
    have cut := cut_of_tokens (Scanner.ofString _) [] tokens rfl read
    obtain ⟨front, others, rfl, further⟩ := cut.split_at member (by simp)
    obtain ⟨_, ends, _⟩ := tokenize_parted read further
    exact ends.hexadecimal_of_word word
  · intro read finish done longest
    obtain ⟨isNumeral, _⟩ := numeral_of_last done
    rw [tokenize_of_last done]
    constructor
    · intro plain
      obtain ⟨fault, opens⟩ := Scanner.opens_of_word isNumeral plain word longest
      exact ⟨fault, opens, by rw [Scanner.tokens_of_opens opens]; rfl⟩
    · intro hexadecimal
      have ends := Scanner.endsBefore_of_longest isNumeral hexadecimal longest
      have number := CutBefore.single before (Lexeme.Spelled.number isNumeral) ends
      rw [number.tokens rfl rfl]
      generalize (Scanner.tokens ⟨next :: rest, _⟩).1 = result
      cases result <;> rfl

section Sample

private def glued : List Token :=
  [⟨⟨.number, "0x1"⟩, ⟨1, 1⟩⟩, ⟨⟨.identifier, "g"⟩, ⟨1, 4⟩⟩, ⟨.endOfInput, ⟨1, 5⟩⟩]

private theorem glued_read : tokenize "0x1g" = .ok glued := by decide +kernel

theorem numbers_end_apart :
    (tokenize (String.ofList ([] ++ "0x1".toList ++ 'g' :: [])) = .ok glued ∧
      (Literal.hexDigits? "0x1".toList).isSome = true ∧ Scanner.isHexDigit 'g' = false) ∧
    (tokenize (String.ofList ("-".toList ++ ".5e1".toList)) =
        .ok ([⟨.operator "-", ⟨1, 1⟩⟩] ++
          [⟨⟨.number, ".5e1"⟩, Location.behind "-".toList⟩, ⟨.endOfInput, ⟨1, 6⟩⟩]) ∧
      Scanner.IsLongest ".5e1".toList ('_' :: ";".toList) ∧
      ∃ fault, LexFault.Opens fault (".5e1".toList ++ '_' :: ";".toList) ∧
        tokenize (String.ofList ("-".toList ++ ".5e1".toList ++ '_' :: ";".toList)) =
          .error ⟨fault, Location.behind "-".toList⟩) ∧
    (tokenize (String.ofList ([] ++ "0x1".toList)) =
        .ok ([] ++ [⟨⟨.number, "0x1"⟩, Location.behind []⟩, ⟨.endOfInput, ⟨1, 4⟩⟩]) ∧
      Scanner.IsLongest "0x1".toList ('g' :: []) ∧
      tokenize (String.ofList ([] ++ "0x1".toList ++ 'g' :: [])) =
        (Scanner.tokens ⟨'g' :: [], Location.behind ([] ++ "0x1".toList)⟩).1.map
          ([] ++ ⟨⟨.number, "0x1"⟩, Location.behind []⟩ :: ·)) := by
  have decimal : tokenize (String.ofList ("-".toList ++ ".5e1".toList)) =
      .ok ([⟨.operator "-", ⟨1, 1⟩⟩] ++
        [⟨⟨.number, ".5e1"⟩, Location.behind "-".toList⟩, ⟨.endOfInput, ⟨1, 6⟩⟩]) := by
    decide +kernel
  have hexadecimal : tokenize (String.ofList ([] ++ "0x1".toList)) =
      .ok ([] ++ [⟨⟨.number, "0x1"⟩, Location.behind []⟩, ⟨.endOfInput, ⟨1, 4⟩⟩]) := by
    decide +kernel
  have first : Scanner.IsLongest ".5e1".toList ('_' :: ";".toList) :=
    Scanner.isLongest_of_foreign (by decide) _ _
  have second : Scanner.IsLongest "0x1".toList ['g'] :=
    Scanner.isLongest_of_foreign (by decide) _ _
  have underscore := numbers_end "-".toList ".5e1" '_' ";".toList (by decide)
  have letter := numbers_end [] "0x1" 'g' [] (by decide)
  exact ⟨⟨glued_read, letter.1 _ glued_read (by decide)⟩,
    ⟨decimal, first, (underscore.2 _ _ decimal first).1 (by decide)⟩,
    hexadecimal, second, (letter.2 _ _ hexadecimal second).2 (by decide)⟩

theorem hexadecimal_runs_on :
    ¬ ∀ source tokens, tokenize source = .ok tokens →
      ∀ token ∈ tokens, token.kind = .number → ∀ before next rest,
        source.toList = before ++ token.text.toList ++ next :: rest →
        token.location = Location.behind before → Scanner.isWordCharacter next = false := by
  intro separate
  have apart := separate _ _ glued_read ⟨⟨.number, "0x1"⟩, ⟨1, 1⟩⟩ (by decide) rfl [] 'g' []
    (by decide) (by decide)
  exact absurd apart (by decide)

end Sample

end ScalarC
