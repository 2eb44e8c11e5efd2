import Mathlib.Data.List.Induction
import ScalarC.Proofs.Spelling.Gaps
import ScalarC.Proofs.Spelling.Numerals

/-!
The tokens of a source are its cut: a source that can be cut into gaps and
lexemes has the tokens of the cut, and no other source has tokens. So no
character is lost, read twice or put at a wrong place.
-/

namespace ScalarC

theorem Location.after_behind (text : List Char) (c : Char) :
    (behind text).after c = behind (text ++ [c]) := by
  by_cases feed : c = '\n'
  · simp [after, behind, feed]
  · simp [after, behind, feed]

theorem Location.afterAll_behind (before text : List Char) :
    (behind before).afterAll text = behind (before ++ text) := by
  induction text generalizing before with
  | nil => simp
  | cons c text ih =>
      rw [afterAll_cons, after_behind, ih]
      simp

namespace Scanner

/-! The table of operators. -/

theorem operators_sorted :
    Lexeme.operators.Pairwise fun first second => second.length ≤ first.length := by
  decide

/-- An operator starts neither a number, a word nor a punctuation mark, and starts like a comment
only where it is a slash. -/
theorem operators_start : ∀ mark ∈ Lexeme.operators, ∃ c ∈ mark.toList.head?,
    isBlank c = false ∧ c.isDigit = false ∧ c ≠ '.' ∧ startsWord c = false ∧
      c ∉ Lexeme.punctuationMarks ∧
      (c = '/' → mark = "/" ∨ mark.toList.tail.head? = some '=') := by
  -- Decided of the first character of each operator, not of all characters.
  have first : ∀ mark ∈ Lexeme.operators, mark.toList.head?.any (fun c => decide
      (isBlank c = false ∧ c.isDigit = false ∧ c ≠ '.' ∧ startsWord c = false ∧
        c ∉ Lexeme.punctuationMarks ∧
        (c = '/' → mark = "/" ∨ mark.toList.tail.head? = some '='))) = true := by
    decide
  intro mark member
  obtain ⟨c, head, starts⟩ := (Option.any_eq_true _ _).mp (first mark member)
  exact ⟨c, head, of_decide_eq_true starts⟩

theorem operator?_longest {text : List Char} {mark other : String}
    (found : operator? text = some mark) (member : other ∈ Lexeme.operators)
    (starts : other.toList <+: text) : other.length ≤ mark.length := by
  obtain ⟨_, before, behind, table, missed⟩ := List.find?_eq_some_iff_append.mp found
  have sorted := operators_sorted
  rw [table] at member sorted
  rcases List.mem_append.mp member with earlier | later
  · have noStart := missed other earlier
    rw [List.isPrefixOf_iff_prefix.mpr starts] at noStart
    cases noStart
  · rcases List.mem_cons.mp later with rfl | later
    · exact Nat.le_refl _
    · exact List.rel_of_pairwise_cons (List.pairwise_append.mp sorted).2.1 later

theorem operator?_of_longest {text : List Char} {mark : String} (member : mark ∈ Lexeme.operators)
    (starts : mark.toList <+: text)
    (longest : ∀ other ∈ Lexeme.operators, other.toList <+: text → other.length ≤ mark.length) :
    operator? text = some mark := by
  cases found : operator? text with
  | none =>
      have noStart := List.find?_eq_none.mp found mark member
      exact absurd (List.isPrefixOf_iff_prefix.mpr starts) noStart
  | some other =>
      have begins := operator?_starts found
      have same : other.toList.length = mark.toList.length :=
        Nat.le_antisymm (longest other (operator?_mem found) begins)
          (operator?_longest found member starts)
      have begun := List.prefix_of_prefix_length_le begins starts (Nat.le_of_eq same)
      have equal := begun.eq_of_length same
      rw [String.toList_inj.mp equal]

/-! One lexeme. -/

theorem startsWord_not_number {c : Char} (starts : startsWord c = true) (rest : List Char) :
    startsNumber c rest = false := by
  have noDigit : c.isDigit = false := by
    by_cases underscore : c = '_'
    · subst underscore
      rfl
    · unfold startsWord Char.isAlpha Char.isUpper Char.isLower at starts
      unfold Char.isDigit
      grind
  have noPoint : c ≠ '.' := by
    rintro rfl
    exact absurd starts (by decide)
  simp [startsNumber, noDigit, noPoint]

theorem startsWord_isWordCharacter {c : Char} (starts : startsWord c = true) :
    isWordCharacter c = true := by
  simp only [startsWord, isWordCharacter, Char.isAlphanum, Bool.or_eq_true] at *
  grind

theorem word_reads {c : Char} {rest : List Char} {kind : TokenKind}
    (starts : startsWord c = true) (read : (word (c :: rest)).result = .ok kind) :
    Lexeme.Spelled ⟨kind, String.ofList (word (c :: rest)).taken⟩ ∧
      Lexeme.EndsBefore ⟨kind, String.ofList (word (c :: rest)).taken⟩ (word (c :: rest)).rest := by
  have inside := startsWord_isWordCharacter starts
  have isWord : IsWord (String.ofList (word (c :: rest)).taken).toList := by
    rw [String.toList_ofList]
    refine ⟨c, rest.takeWhile isWordCharacter, ?_, starts, fun _ => mem_takeWhile⟩
    simp [word, inside]
  have stops : ∀ next ∈ (word (c :: rest)).rest.head?, isWordCharacter next = false :=
    fun _ => head_dropWhile
  by_cases reserved : String.ofList (word (c :: rest)).taken ∈ Lexeme.keywords
  · have keyword : kind = .keyword := by
      simp only [word] at read reserved
      rw [if_pos reserved] at read
      cases read
      rfl
    subst keyword
    exact ⟨.keyword isWord reserved, stops⟩
  · have identifier : kind = .identifier := by
      simp only [word] at read reserved
      rw [if_neg reserved] at read
      cases read
      rfl
    subst identifier
    exact ⟨.identifier isWord reserved, stops⟩

/-- What the scanner reads where no gap is belongs to its class and ends there. -/
theorem lexeme_reads {c : Char} {rest : List Char} {kind : TokenKind}
    (noGap : StartsNoGap (c :: rest)) (read : (lexeme c rest).result = .ok kind) :
    Lexeme.Spelled ⟨kind, String.ofList (lexeme c rest).taken⟩ ∧
      Lexeme.EndsBefore ⟨kind, String.ofList (lexeme c rest).taken⟩ (lexeme c rest).rest := by
  unfold lexeme at read ⊢
  split at read
  · next starts =>
      simp only [starts, ↓reduceIte]
      exact numeral_reads starts read
  next noNumber =>
  simp only [noNumber, Bool.false_eq_true, ↓reduceIte]
  split at read
  · next starts =>
      simp only [starts, ↓reduceIte]
      exact word_reads starts read
  next noWord =>
  simp only [noWord, Bool.false_eq_true, ↓reduceIte]
  split at read
  · next member =>
      cases read
      simp only [member, ↓reduceIte]
      exact ⟨.punctuation member, trivial⟩
  next noMark =>
  simp only [noMark, ↓reduceIte]
  cases found : operator? (c :: rest) with
  | none => simp [found] at read
  | some mark =>
      simp only [found, Except.ok.injEq] at read
      subst read
      obtain ⟨behind, same⟩ := operator?_starts found
      have left : (c :: rest).drop mark.toList.length = behind := by simp [← same]
      simp only [String.ofList_toList, left]
      refine ⟨.operator (operator?_mem found), ?_, ?_⟩
      · intro other member starts
        exact operator?_longest found member (same ▸ starts)
      · rintro rfl d head
        -- A slash that opens a comment would have been skipped.
        obtain ⟨rfl, rfl⟩ := List.cons.inj same
        exact (noGap '/' behind rfl).2 rfl d head

theorem startsNoGap_of_class (inClass : Char → Bool) {c : Char} (is : inClass c = true)
    (noGap : [' ', '\t', '\r', '\n', '/'].any inClass = false) (rest : List Char) :
    StartsNoGap (c :: rest) := by
  rintro _ _ ⟨rfl, rfl⟩
  constructor
  · cases blank : isBlank c with
    | false => rfl
    | true =>
        simp only [isBlank, Bool.or_eq_true, decide_eq_true_eq] at blank
        have member : c ∈ [' ', '\t', '\r', '\n', '/'] := by simp; grind
        exact absurd is (List.any_eq_false.mp noGap c member)
  · rintro rfl
    exact absurd is (List.any_eq_false.mp noGap '/' (by simp))

theorem startsNoGap_of_number {c : Char} {rest : List Char}
    (starts : startsNumber c rest = true) : StartsNoGap (c :: rest) := by
  refine startsNoGap_of_class (fun d => d.isDigit || d = '.') ?_ (by decide) _
  simp only [startsNumber, Bool.or_eq_true, Bool.and_eq_true] at starts ⊢
  exact starts.imp_right And.left

theorem lexeme_of_spelled {spelled : Lexeme} (belongs : spelled.Spelled) {rest : List Char}
    (ends : spelled.EndsBefore rest) :
    ∃ c others, spelled.text.toList = c :: others ∧ StartsNoGap (c :: others ++ rest) ∧
      lexeme c (others ++ rest) = ⟨.ok spelled.kind, spelled.text.toList, rest⟩ := by
  have words {text : String} (isWord : IsWord text.toList)
      (stops : ∀ d ∈ rest.head?, isWordCharacter d = false) :
      ∃ c others, text.toList = c :: others ∧ StartsNoGap (c :: others ++ rest) ∧
        lexeme c (others ++ rest) =
          ⟨.ok (if text ∈ Lexeme.keywords then .keyword else .identifier), text.toList, rest⟩ := by
    obtain ⟨c, others, same, starts, inside⟩ := isWord
    have all : ∀ d ∈ c :: others, isWordCharacter d = true :=
      List.forall_mem_cons.mpr ⟨startsWord_isWordCharacter starts, inside⟩
    have taken := takeWhile_run all stops
    have left := dropWhile_run all stops
    rw [List.cons_append] at taken left
    refine ⟨c, others, same, startsNoGap_of_class startsWord starts (by decide) _, ?_⟩
    simp only [lexeme, startsWord_not_number starts, starts, Bool.false_eq_true, ↓reduceIte, word,
      taken, left, ← same, String.ofList_toList]
  cases belongs with
  | keyword isWord reserved =>
      obtain ⟨c, others, same, starts, read⟩ := words isWord ends
      exact ⟨c, others, same, starts, by rw [read, if_pos reserved]⟩
  | identifier isWord reserved =>
      obtain ⟨c, others, same, starts, read⟩ := words isWord ends
      exact ⟨c, others, same, starts, by rw [read, if_neg reserved]⟩
  | @number text isNumeral =>
      obtain ⟨c, others, same, starts⟩ := startsNumber_of_numeral isNumeral
      have read := numeral_of_is isNumeral (by rwa [String.ofList_toList])
      rw [same, List.cons_append] at read
      refine ⟨c, others, same, startsNoGap_of_number (starts rest), ?_⟩
      simp only [lexeme, starts rest, ↓reduceIte, same, read]
  | @operator text member =>
      obtain ⟨longest, slash⟩ := ends
      obtain ⟨c, head, noBlank, noDigit, noPoint, noWord, noMark, comment⟩ :=
        operators_start text member
      obtain ⟨others, same⟩ := List.head?_eq_some_iff.mp head
      have found := operator?_of_longest member (List.prefix_append _ rest) longest
      rw [same, List.cons_append] at found
      refine ⟨c, others, same, ?_, ?_⟩
      · rintro _ _ ⟨rfl, rfl⟩
        refine ⟨noBlank, fun isSlash d next => ?_⟩
        rcases comment isSlash with rfl | equals
        · obtain ⟨_, rfl⟩ := List.cons.inj same
          exact slash rfl d next
        · rw [same, List.tail_cons] at equals
          obtain ⟨more, rfl⟩ := List.head?_eq_some_iff.mp equals
          obtain rfl : '=' = d := by simpa using next
          decide
      · have noNumber : startsNumber c (others ++ rest) = false := by
          simp [startsNumber, noDigit, noPoint]
        simp only [lexeme, noNumber, noWord, noMark, Bool.false_eq_true, ↓reduceIte, found]
        simp [same]
  | @punctuation c member =>
      have starts := startsNoGap_of_class (fun d => d ∈ Lexeme.punctuationMarks)
        (c := c) (by simpa using member) (by decide) rest
      have other : c.isDigit = false ∧ c ≠ '.' ∧ startsWord c = false := by
        revert member
        simp only [Lexeme.punctuationMarks, List.mem_cons, List.not_mem_nil, or_false]
        rintro (rfl | rfl | rfl | rfl | rfl | rfl) <;> decide
      refine ⟨c, [], by simp, starts, ?_⟩
      simp [lexeme, startsNumber, other, member]

/-! All tokens. -/

theorem tokens_of_end {scanner : Scanner} {here : Location}
    (gap : skip scanner = (.ok (), ⟨[], here⟩)) :
    tokens scanner = (.ok [⟨Lexeme.endOfInput, here⟩], ⟨[], here⟩) := by
  rw [tokens]
  split <;> simp_all

theorem tokens_of_lexeme {scanner : Scanner} {here : Location} {c : Char} {rest behind : List Char}
    {kind : TokenKind} {taken : List Char} (gap : skip scanner = (.ok (), ⟨c :: rest, here⟩))
    (read : lexeme c rest = ⟨.ok kind, taken, behind⟩) :
    tokens scanner =
      ((tokens ⟨behind, here.afterAll taken⟩).1.map (⟨⟨kind, String.ofList taken⟩, here⟩ :: ·),
        (tokens ⟨behind, here.afterAll taken⟩).2) := by
  rw [tokens]
  split <;> simp_all
  split <;> simp_all

theorem tokens_of_break {scanner stopped : Scanner} {error : LexError}
    (broken : skip scanner = (.error error, stopped)) :
    tokens scanner = (.error error, stopped) := by
  rw [tokens]
  split <;> simp_all

theorem tokens_of_fault {scanner : Scanner} {here : Location} {c : Char} {rest : List Char}
    {fault : LexFault} (gap : skip scanner = (.ok (), ⟨c :: rest, here⟩))
    (broken : (lexeme c rest).result = .error fault) :
    tokens scanner =
      (.error ⟨fault, here⟩, ⟨(lexeme c rest).rest, here.afterAll (lexeme c rest).taken⟩) := by
  rw [tokens]
  split <;> simp_all
  split <;> simp_all

end Scanner

theorem cut_of_tokens (scanner : Scanner) :
    ∀ before read, scanner.location = Location.behind before → scanner.tokens.1 = .ok read →
      Cut before scanner.rest read := by
  fun_induction Scanner.tokens scanner with
  | case1 | case3 =>
      intro before read place done
      cases done
  | case2 scanner here gap =>
      intro before read place done
      cases done
      obtain ⟨skipped, text, stop, isGap, _⟩ := Scanner.skip_splits gap
      obtain rfl : here = Location.behind (before ++ skipped) := by
        rw [stop, place, Location.afterAll_behind]
      rw [text, List.append_nil]
      exact .finish (by simpa using isGap)
  | case4 scanner c rest here gap next kind found _ others stopped split ih =>
      intro before read place done
      rw [split] at ih
      cases others with
      | error fault => cases done
      | ok others =>
          cases done
          obtain ⟨skipped, text, stop, isGap, starts⟩ := Scanner.skip_splits gap
          obtain rfl : here = Location.behind (before ++ skipped) := by
            rw [stop, place, Location.afterAll_behind]
          obtain ⟨spelled, ends⟩ := Scanner.lexeme_reads starts found
          have whole := Scanner.lexeme_append c rest
          have cut := ih (before ++ skipped ++ (Scanner.lexeme c rest).taken) _
            (Location.afterAll_behind _ _) rfl
          rw [text, ← whole, ← List.append_assoc]
          have token : Cut before _ _ :=
            Cut.token (by simpa using isGap) spelled ends (by simpa using cut)
          simpa using token

theorem tokens_of_cut {before text : List Char} {read : List Token} (cut : Cut before text read)
    {scanner : Scanner} (same : scanner.rest = text)
    (place : scanner.location = Location.behind before) : scanner.tokens.1 = .ok read := by
  induction cut generalizing scanner with
  | @finish before gap isGap =>
      have whole : scanner.rest = gap ++ [] := by simp [same]
      have skipped := Scanner.skip_gap whole isGap (fun _ => rfl) nofun
      rw [place, Location.afterAll_behind] at skipped
      rw [Scanner.tokens_of_end skipped]
  | @token before gap rest lexeme tokens isGap spelled ends _ ih =>
      obtain ⟨c, others, text, starts, read⟩ := Scanner.lexeme_of_spelled spelled ends
      have whole : scanner.rest = gap ++ (c :: others ++ rest) := by simp [same, text]
      have skipped := Scanner.skip_gap whole isGap False.elim starts
      rw [place, Location.afterAll_behind] at skipped
      rw [Scanner.tokens_of_lexeme skipped read, ih rfl (Location.afterAll_behind _ _),
        String.ofList_toList]
      rfl

/-- A source has tokens exactly if it can be cut into gaps and lexemes, each ending where its
class says, and the tokens are those of the cut at the places where it has them. -/
theorem tokenize_cuts (source : String) (tokens : List Token) :
    tokenize source = .ok tokens ↔ Cut [] source.toList tokens := by
  constructor
  · intro read
    exact cut_of_tokens _ [] tokens rfl read
  · intro cut
    exact tokens_of_cut cut rfl rfl

end ScalarC
