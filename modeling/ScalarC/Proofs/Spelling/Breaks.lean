import ScalarC.Proofs.Spelling.Faults

/-!
Tokens up to a fault. The text in front of a fault has the tokens it has alone,
for a lexeme ends where it does whether the fault follows it or not, and behind
a blank a fault is found whatever stands before.
-/

namespace ScalarC

theorem Lexeme.EndsBefore.of_append {lexeme : Lexeme} {front back : List Char}
    (ends : lexeme.EndsBefore (front ++ back)) : lexeme.EndsBefore front := by
  have heads (c : Char) (head : c ∈ front.head?) : c ∈ (front ++ back).head? := by
    obtain ⟨others, rfl⟩ := List.head?_eq_some_iff.mp head
    rfl
  obtain ⟨kind, text⟩ := lexeme
  cases kind with
  | keyword | identifier | number => exact fun c head => ends c (heads c head)
  | operator =>
      refine ⟨fun mark member starts => ends.1 mark member ?_, fun slash c head =>
        ends.2 slash c (heads c head)⟩
      rw [← List.append_assoc]
      exact starts.trans (List.prefix_append _ back)
  | punctuation | endOfInput => trivial

theorem Lexeme.operators_short : ∀ mark ∈ operators, mark.toList.length ≤ 2 := by
  decide

/-- What follows a lexeme does not matter behind its first character. -/
theorem Lexeme.EndsBefore.append {lexeme : Lexeme} {front : List Char}
    (ends : lexeme.EndsBefore front) (spelled : lexeme.Spelled) (some : front ≠ [])
    (back : List Char) : lexeme.EndsBefore (front ++ back) := by
  obtain ⟨next, others, rfl⟩ := List.exists_cons_of_ne_nil some
  cases spelled with
  | keyword | identifier | number => exact fun c head => ends c head
  | @operator text member =>
      refine ⟨fun mark isMark starts => ends.1 mark isMark ?_, ends.2⟩
      -- No operator reaches further than one character behind another.
      obtain ⟨c, head, _⟩ := Scanner.operators_start text member
      obtain ⟨more, same⟩ := List.head?_eq_some_iff.mp head
      have short := operators_short mark isMark
      rw [← List.append_assoc] at starts
      refine List.prefix_of_prefix_length_le starts (List.prefix_append _ back) ?_
      simp only [List.length_append, same, List.length_cons]
      omega
  | punctuation => trivial

/-! All tokens. -/

theorem Cut.ends {before text : List Char} {tokens : List Token} (cut : Cut before text tokens) :
    ∃ read, tokens = read ++ [⟨Lexeme.endOfInput, Location.behind (before ++ text)⟩] := by
  induction cut with
  | finish => exact ⟨[], rfl⟩
  | token _ _ _ _ ih =>
      obtain ⟨read, rfl⟩ := ih
      exact ⟨_ :: read, by rw [List.cons_append, List.append_assoc, List.append_assoc,
        List.append_assoc]⟩

theorem tokens_break (scanner : Scanner) :
    ∀ before error, scanner.location = Location.behind before →
      scanner.tokens.1 = .error error → ∃ front back read, scanner.rest = front ++ back ∧
        Cut before front read ∧ error.fault.Opens back ∧
        error.location = Location.behind (before ++ front) := by
  fun_induction Scanner.tokens scanner with
  | case1 scanner error stopped gap =>
      intro before _ place broken
      cases broken
      have skipped : (Scanner.skip scanner).1 = .error error := congrArg Prod.fst gap
      rcases Scanner.skipFrom_breaks skipped with
        ⟨front, body, text, isGap, unclosed, rfl⟩ | ⟨_, other, _⟩
      · refine ⟨front, _, _, text, .finish (isGap.mono False.elim), .openComment unclosed, ?_⟩
        rw [place, Location.afterAll_behind]
      · cases other
  | case2 =>
      intro before error place broken
      cases broken
  | case3 scanner c rest here gap next fault found =>
      intro before error place broken
      cases broken
      obtain ⟨front, text, rfl, isGap, starts⟩ := Scanner.skip_splits gap
      refine ⟨front, _, _, text, .finish (isGap.mono (by simp)),
        Scanner.lexeme_breaks (starts c rest rfl).1 found, ?_⟩
      rw [place, Location.afterAll_behind]
  | case4 scanner c rest here gap next kind found _ others stopped split ih =>
      intro before error place broken
      rw [split] at ih
      cases others with
      | ok others => cases broken
      | error fault =>
          cases broken
          obtain ⟨skipped, text, stop, isGap, starts⟩ := Scanner.skip_splits gap
          obtain rfl : here = Location.behind (before ++ skipped) := by
            rw [stop, place, Location.afterAll_behind]
          obtain ⟨spelled, ends⟩ := Scanner.lexeme_reads starts found
          obtain ⟨front, back, read, left, cut, opens, stands⟩ :=
            ih (before ++ skipped ++ (Scanner.lexeme c rest).taken) error
              (Location.afterAll_behind _ _) rfl
          have rest_eq : (Scanner.lexeme c rest).rest = front ++ back := left
          have whole := Scanner.lexeme_append c rest
          rw [rest_eq] at whole ends
          have token := Cut.token (by simpa using isGap) spelled ends.of_append
            (by rwa [String.toList_ofList])
          refine ⟨_, back, _, ?_, token, opens, ?_⟩
          · rw [text, ← whole]
            simp
          · rw [stands]
            simp

theorem Scanner.IsWord.characters {text : List Char} (isWord : IsWord text) :
    ∀ c ∈ text, isWordCharacter c = true := by
  obtain ⟨c, others, rfl, starts, inside⟩ := isWord
  exact List.forall_mem_cons.mpr ⟨startsWord_isWordCharacter starts, inside⟩

theorem Scanner.IsNumeral.characters {text : List Char} (isNumeral : IsNumeral text) :
    ∀ c ∈ text, (isHexDigit c || c ∈ ['x', 'X', '.', '+', '-']) = true := by
  intro c member
  cases isNumeral with
  | @decimal body exponent isMantissa isExponent =>
      rcases List.mem_append.mp member with inBody | inExponent
      · rcases mantissa_characters isMantissa c inBody with digit | rfl
        · simp [isHexDigit, digit]
        · decide
      · rcases exponent_characters isExponent c inExponent with digit | mark
        · simp [isHexDigit, digit]
        · simp only [List.mem_cons, List.not_mem_nil, or_false] at mark
          rcases mark with rfl | rfl | rfl | rfl <;> decide
  | @hexadecimal radix digits isRadix run =>
      rcases List.mem_append.mp member with inRadix | inDigits
      · simp only [List.mem_cons, List.not_mem_nil, or_false] at isRadix
        rcases isRadix with rfl | rfl <;>
          simp only [List.mem_cons, List.not_mem_nil, or_false] at inRadix <;>
          rcases inRadix with rfl | rfl <;> decide
      · simp [run.2 c inDigits]

theorem Lexeme.Spelled.not_blank {lexeme : Lexeme} (spelled : lexeme.Spelled) :
    ∀ c ∈ lexeme.text.toList, Scanner.isBlank c = false := by
  have outside (inClass : Char → Bool) (none : [' ', '\t', '\r', '\n'].any inClass = false)
      (c : Char) (inside : inClass c = true) : Scanner.isBlank c = false := by
    by_contra blank
    have member := Scanner.mem_of_isBlank (Bool.not_eq_false _ ▸ blank)
    exact List.any_eq_false.mp none c member inside
  intro c member
  cases spelled with
  | keyword isWord | identifier isWord =>
      exact outside Scanner.isWordCharacter (by decide) c (isWord.characters c member)
  | number isNumeral =>
      exact outside (fun d => Scanner.isHexDigit d || d ∈ ['x', 'X', '.', '+', '-']) (by decide) c
        (isNumeral.characters c member)
  | operator isOperator =>
      simpa using List.any_eq_false.mp (operators_not_blank _ isOperator) c member
  | @punctuation d isMark =>
      obtain rfl : c = d := by simpa using member
      exact outside (fun d => d ∈ punctuationMarks) (by decide) c (by simpa using isMark)

/-- A text cut in front of `rest`, up to a gap that is closed. Each lexeme ends before what follows
it, and `rest` follows the last one. -/
inductive CutBefore (rest : List Char) : List Char → List Char → List Token → Prop where
  | gap {before gap : List Char} : Scanner.IsGap False gap → CutBefore rest before gap []
  | token {before gap front : List Char} {lexeme : Lexeme} {tokens : List Token} :
      Scanner.IsGap False gap → lexeme.Spelled → lexeme.EndsBefore (front ++ rest) →
      CutBefore rest (before ++ gap ++ lexeme.text.toList) front tokens →
      CutBefore rest before (gap ++ lexeme.text.toList ++ front)
        (⟨lexeme, Location.behind (before ++ gap)⟩ :: tokens)

theorem Scanner.tokens_of_skip {first second : Scanner} (same : skip first = skip second) :
    tokens first = tokens second := by
  rcases gap : skip second with ⟨skipped, ⟨text, here⟩⟩
  rw [gap] at same
  cases skipped with
  | error error => rw [tokens_of_break same, tokens_of_break gap]
  | ok =>
      cases text with
      | nil => rw [tokens_of_end same, tokens_of_end gap]
      | cons c rest =>
          rcases read : lexeme c rest with ⟨result, taken, behind⟩
          cases result with
          | error fault =>
              have broken : (lexeme c rest).result = .error fault := by rw [read]
              rw [tokens_of_fault same broken, tokens_of_fault gap broken]
          | ok kind => rw [tokens_of_lexeme same read, tokens_of_lexeme gap read]

theorem CutBefore.tokens {rest before front : List Char} {read : List Token}
    (cut : CutBefore rest before front read) {scanner : Scanner}
    (same : scanner.rest = front ++ rest) (place : scanner.location = Location.behind before) :
    scanner.tokens.1 =
      (Scanner.tokens ⟨rest, Location.behind (before ++ front)⟩).1.map (read ++ ·) := by
  induction cut generalizing scanner with
  | @gap before gap isGap =>
      have skipped : Scanner.skip scanner =
          Scanner.skip ⟨rest, Location.behind (before ++ gap)⟩ := by
        rw [Scanner.skip, same, Scanner.skipFrom_past isGap, place, Location.afterAll_behind]
        rfl
      rw [Scanner.tokens_of_skip skipped]
      generalize (Scanner.tokens _).1 = result
      cases result <;> rfl
  | @token before gap front lexeme tokens isGap spelled ends _ ih =>
      obtain ⟨c, others, text, starts, read⟩ := Scanner.lexeme_of_spelled spelled ends
      have whole : scanner.rest = gap ++ (c :: others ++ (front ++ rest)) := by
        simp [same, text]
      have skipped := Scanner.skip_gap whole isGap False.elim starts
      rw [place, Location.afterAll_behind] at skipped
      rw [Scanner.tokens_of_lexeme skipped read, ih rfl (Location.afterAll_behind _ _),
        String.ofList_toList, ← List.append_assoc, ← List.append_assoc]
      generalize (Scanner.tokens ⟨rest, _⟩).1 = result
      cases result <;> rfl

/-- A cut text that ends in a blank and not in a line comment is cut whatever follows. -/
theorem Cut.cutBefore {before text : List Char} {read : List Token} (cut : Cut before text read)
    (blank : ∀ c ∈ text.getLast?, Scanner.isBlank c = true)
    (outside : ∀ front body others, text = front ++ '/' :: '/' :: body → '\n' ∉ body →
      ¬ Cut before front others)
    (rest : List Char) : ∃ others, CutBefore rest before text others := by
  induction cut with
  | @finish before gap isGap =>
      rcases isGap.closed_or_open with closed | ⟨_, lead, body, rfl, closed, noFeed⟩
      · exact ⟨[], .gap closed⟩
      · exact absurd (.finish (closed.mono False.elim)) (outside lead body _ rfl noFeed)
  | @token before gap others lexeme tokens isGap spelled ends _ ih =>
      have some : others ≠ [] := by
        rintro rfl
        obtain ⟨c, more, text, _⟩ := Scanner.lexeme_of_spelled spelled ends
        obtain ⟨init, last, split⟩ := List.eq_nil_or_concat (c :: more) |>.resolve_left nofun
        have visible := spelled.not_blank last (by rw [text, split]; simp)
        rw [blank last (by rw [text, split]; simp)] at visible
        cases visible
      obtain ⟨behind, within⟩ := by
        refine ih ?_ ?_
        · rwa [List.getLast?_append, List.getLast?_eq_some_getLast some, Option.some_or,
            ← List.getLast?_eq_some_getLast some] at blank
        · rintro front body inner rfl noFeed cut
          exact outside _ body _ (by simp) noFeed (.token isGap spelled ends.of_append cut)
      exact ⟨_, .token isGap spelled (ends.append spelled some rest) within⟩

theorem Scanner.tokens_of_opens {fault : LexFault} {text : List Char} (opens : fault.Opens text)
    (here : Location) : (tokens ⟨text, here⟩).1 = .error ⟨fault, here⟩ := by
  rcases lexeme_of_opens opens with ⟨body, rfl, rfl, unclosed⟩ | ⟨c, others, rfl, starts, broken⟩
  · have skipped : skip ⟨[] ++ '/' :: '*' :: body, here⟩ = _ := skip_unclosed rfl .nil unclosed
    exact congrArg Prod.fst (tokens_of_break skipped)
  · have skipped : skip ⟨[] ++ c :: others, here⟩ = _ :=
      skip_gap rfl (.nil : IsGap False []) False.elim starts
    exact congrArg Prod.fst (tokens_of_fault skipped broken)

theorem tokens_stop {before text : List Char} {read : List Token} (cut : Cut before text read)
    {fault : LexFault} {rest : List Char} (opens : fault.Opens rest)
    (blank : ∀ c ∈ text.getLast?, Scanner.isBlank c = true)
    (outside : ∀ front body others, text = front ++ '/' :: '/' :: body → '\n' ∉ body →
      ¬ Cut before front others)
    {scanner : Scanner} (same : scanner.rest = text ++ rest)
    (place : scanner.location = Location.behind before) :
    scanner.tokens.1 = .error ⟨fault, Location.behind (before ++ text)⟩ := by
  obtain ⟨others, within⟩ := cut.cutBefore blank outside rest
  rw [within.tokens same place, Scanner.tokens_of_opens opens]
  rfl

theorem LexFault.Opens.ne_nil {fault : LexFault} {text : List Char} (opens : fault.Opens text) :
    text ≠ [] := by
  rcases Scanner.lexeme_of_opens opens with ⟨_, _, rfl, _⟩ | ⟨_, _, rfl, _⟩ <;> simp

/-- What has no tokens is tokens up to a text that opens the fault, and the fault is at the end of
input of what is before. Whatever opens a fault stops the scanner there, behind any source that
ends in a blank and not in a line comment. -/
theorem tokenize_blames :
    (∀ source error, tokenize source = .error error →
      ∃ before rest read, source.toList = before ++ rest ∧ rest ≠ [] ∧
        tokenize (String.ofList before) =
          .ok (read ++ [⟨Lexeme.endOfInput, error.location⟩]) ∧
        error.location = Location.behind before ∧ error.fault.Opens rest) ∧
    ∀ before tokens fault rest, tokenize (String.ofList before) = .ok tokens →
      (∀ c ∈ before.getLast?, Scanner.isBlank c = true) → ¬ EndsInComment before →
      LexFault.Opens fault rest →
      tokenize (String.ofList (before ++ rest)) = .error ⟨fault, Location.behind before⟩ := by
  constructor
  · intro source error broken
    obtain ⟨front, back, _, text, cut, opens, stands⟩ := tokens_break _ [] error rfl broken
    obtain ⟨read, rfl⟩ := cut.ends
    refine ⟨front, back, read, text, opens.ne_nil, ?_, stands, opens⟩
    rw [stands]
    exact tokens_of_cut cut String.toList_ofList rfl
  · intro before tokens fault rest read blank outside opens
    have cut := cut_of_tokens (Scanner.ofString (String.ofList before)) [] tokens rfl read
    simp only [Scanner.ofString, String.toList_ofList] at cut
    refine tokens_stop cut opens blank ?_ String.toList_ofList rfl
    intro front body others same noFeed inner
    exact outside ⟨front, body, others, same, noFeed,
      tokens_of_cut inner String.toList_ofList rfl⟩

section Sample

private theorem assigned_opens :
    LexFault.Opens (.numberRunsOn "12" 'a') ("12ab;".toList) := by
  have digits : Scanner.IsRun Char.isDigit ['1', '2'] :=
    ⟨by decide, List.all_eq_true.mp (by decide)⟩
  exact .numberRunsOn (.whole digits) .none (by decide) (by decide) (by decide)

theorem tokenize_blames_assigned :
    (tokenize "x = 1 @ 2" = .error ⟨.strayCharacter '@', ⟨1, 7⟩⟩ ∧
      ∃ before rest read, "x = 1 @ 2".toList = before ++ rest ∧ rest ≠ [] ∧
        tokenize (String.ofList before) = .ok (read ++ [⟨Lexeme.endOfInput, ⟨1, 7⟩⟩]) ∧
        ⟨1, 7⟩ = Location.behind before ∧ LexFault.Opens (.strayCharacter '@') rest) ∧
    (∃ tokens, tokenize (String.ofList "x = ".toList) = .ok tokens) ∧
    (∀ c ∈ "x = ".toList.getLast?, Scanner.isBlank c = true) ∧ ¬ EndsInComment "x = ".toList ∧
    LexFault.Opens (.numberRunsOn "12" 'a') "12ab;".toList ∧
    tokenize (String.ofList ("x = ".toList ++ "12ab;".toList)) =
      .error ⟨.numberRunsOn "12" 'a', Location.behind "x = ".toList⟩ := by
  have broken : tokenize "x = 1 @ 2" = .error ⟨.strayCharacter '@', ⟨1, 7⟩⟩ := by
    decide +kernel
  have scanned : (tokenize (String.ofList "x = ".toList)).toOption.isSome = true := by
    decide +kernel
  obtain ⟨tokens, some⟩ := Option.isSome_iff_exists.mp scanned
  have read := toOption_eq_some.mp some
  have blank : ∀ c ∈ "x = ".toList.getLast?, Scanner.isBlank c = true :=
    (Option.all_eq_true _ _).mp (by decide)
  have outside : ¬ EndsInComment "x = ".toList := by
    rintro ⟨before, body, _, same, _⟩
    have slash : '/' ∈ "x = ".toList := by simp [same]
    exact absurd slash (by decide)
  exact ⟨⟨broken, tokenize_blames.1 _ _ broken⟩, ⟨tokens, read⟩, blank, outside, assigned_opens,
    tokenize_blames.2 _ tokens _ _ read blank outside assigned_opens⟩

end Sample

end ScalarC
