import ScalarC.Scanner.Gap
import ScalarC.Scanner.Numeral

/-!
The tokens of a text. A scanner reads gap and lexeme by turns until the text
ends, and closes with a token for the end of input. After a fault the tokens
read so far are lost, and the scanner can go on from where it stopped.
-/

namespace ScalarC

namespace Scanner

def startsWord (c : Char) : Bool := c.isAlpha || c = '_'

def word (text : List Char) : Reading :=
  let taken := text.takeWhile isWordCharacter
  let kind := if String.ofList taken ∈ Lexeme.keywords then .keyword else .identifier
  ⟨.ok kind, taken, text.dropWhile isWordCharacter⟩

def operator? (text : List Char) : Option String :=
  Lexeme.operators.find? fun mark => mark.toList.isPrefixOf text

theorem operator?_starts {text : List Char} {mark : String}
    (found : operator? text = some mark) : mark.toList <+: text := by
  have starts := List.find?_some (p := fun mark : String => mark.toList.isPrefixOf text) found
  exact List.isPrefixOf_iff_prefix.mp starts

theorem operator?_mem {text : List Char} {mark : String}
    (found : operator? text = some mark) : mark ∈ Lexeme.operators :=
  List.mem_of_find?_eq_some found

def lexeme (c : Char) (rest : List Char) : Reading :=
  if startsNumber c rest then numeral (c :: rest)
  else if startsWord c then word (c :: rest)
  else if c ∈ Lexeme.punctuationMarks then ⟨.ok .punctuation, [c], rest⟩
  else match operator? (c :: rest) with
    | some mark => ⟨.ok .operator, mark.toList, (c :: rest).drop mark.toList.length⟩
    | none => ⟨.error (.strayCharacter c), [], c :: rest⟩

theorem lexeme_append (c : Char) (rest : List Char) :
    (lexeme c rest).taken ++ (lexeme c rest).rest = c :: rest := by
  unfold lexeme
  split
  · exact numeral_append _
  split
  · exact List.takeWhile_append_dropWhile
  split
  · rfl
  split
  · next mark found =>
      obtain ⟨others, same⟩ := operator?_starts found
      simp [← same]
  · rfl

theorem lexeme_taken_ne_nil {c : Char} {rest : List Char} {kind : TokenKind}
    (found : (lexeme c rest).result = .ok kind) : (lexeme c rest).taken ≠ [] := by
  unfold lexeme at found ⊢
  split
  · next starts => exact numeral_taken_ne_nil starts
  split
  · next starts =>
      have inside : isWordCharacter c := by
        simp only [startsWord, isWordCharacter, Char.isAlphanum, Bool.or_eq_true] at *
        grind
      simp [word, inside]
  split
  · simp
  split
  · next mark hit =>
      have member := operator?_mem hit
      revert member
      simp only [Lexeme.operators, List.mem_cons, List.not_mem_nil, or_false]
      rintro (h | h | h | h | h | h | h | h | h | h | h | h | h | h | h | h | h | h | h | h) <;>
        subst h <;> decide
  · simp_all

theorem rest_lt {scanner : Scanner} {c : Char} {rest : List Char} {here : Location}
    {kind : TokenKind} (gap : skip scanner = (.ok (), ⟨c :: rest, here⟩))
    (found : (lexeme c rest).result = .ok kind) :
    (lexeme c rest).rest.length < scanner.rest.length := by
  have taken := List.length_pos_iff.mpr (lexeme_taken_ne_nil found)
  have whole := congrArg List.length (lexeme_append c rest)
  have inside := (skip_suffix scanner).length_le
  rw [gap] at inside
  simp only [List.length_append] at whole inside
  omega

/-- The tokens up to the end of input, or the first fault, and the scanner
behind what was read. -/
def tokens (scanner : Scanner) : Except LexError (List Token) × Scanner :=
  match gap : skip scanner with
  | (.error error, stopped) => (.error error, stopped)
  | (.ok (), ⟨[], here⟩) => (.ok [⟨Lexeme.endOfInput, here⟩], ⟨[], here⟩)
  | (.ok (), ⟨c :: rest, here⟩) =>
      let next : Scanner := ⟨(lexeme c rest).rest, here.afterAll (lexeme c rest).taken⟩
      match found : (lexeme c rest).result with
      | .error fault => (.error ⟨fault, here⟩, next)
      | .ok kind =>
          have := rest_lt gap found
          let (others, stopped) := tokens next
          (others.map (⟨⟨kind, String.ofList (lexeme c rest).taken⟩, here⟩ :: ·), stopped)
termination_by scanner.rest.length

end Scanner

/-- All tokens of a source text, the end of input included. -/
def tokenize (source : String) : Except LexError (List Token) :=
  (Scanner.ofString source).tokens.1

end ScalarC
