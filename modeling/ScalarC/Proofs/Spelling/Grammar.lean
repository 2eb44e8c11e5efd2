import ScalarC.Literal
import ScalarC.Scanner.Tokens

/-!
How sources are spelled: what a gap is, what each class of lexemes looks like
and what may follow one, and how a source is cut into its tokens. Nothing here
scans. A cut keeps the text in front of it, which alone says where a token is.
-/

namespace ScalarC

/-- The place behind a text: one line for each line feed in it, and one column for each
character behind the last of them. -/
def Location.behind (text : List Char) : Location :=
  ⟨text.count '\n' + 1, (text.reverse.takeWhile (· ≠ '\n')).length + 1⟩

namespace Scanner

/-- Blanks and comments. Only the last gap of a source may end in a line comment without its
line feed. -/
inductive IsGap (last : Prop) : List Char → Prop where
  | nil : IsGap last []
  | blank {c : Char} {gap : List Char} :
      isBlank c = true → IsGap last gap → IsGap last (c :: gap)
  | lineComment {body gap : List Char} :
      '\n' ∉ body → IsGap last gap → IsGap last ('/' :: '/' :: body ++ '\n' :: gap)
  | blockComment {body gap : List Char} :
      ¬ ['*', '/'] <:+: body → IsGap last gap →
      IsGap last ('/' :: '*' :: body ++ '*' :: '/' :: gap)
  | openComment {body : List Char} : last → '\n' ∉ body → IsGap last ('/' :: '/' :: body)

def IsWord (text : List Char) : Prop :=
  ∃ c rest, text = c :: rest ∧ startsWord c = true ∧ ∀ d ∈ rest, isWordCharacter d = true

def IsRun (inClass : Char → Bool) (text : List Char) : Prop :=
  text ≠ [] ∧ ∀ c ∈ text, inClass c = true

/-- Digits, with a point among or beside them or without one. -/
inductive IsMantissa : List Char → Prop where
  | whole {digits : List Char} : IsRun Char.isDigit digits → IsMantissa digits
  | pointed {whole fraction : List Char} :
      IsRun Char.isDigit (whole ++ fraction) → IsMantissa (whole ++ '.' :: fraction)

inductive IsExponent : List Char → Prop where
  | none : IsExponent []
  | power {mark : Char} {sign digits : List Char} :
      mark ∈ ['e', 'E'] → sign ∈ [[], ['+'], ['-']] → IsRun Char.isDigit digits →
      IsExponent (mark :: sign ++ digits)

inductive IsNumeral : List Char → Prop where
  | decimal {body exponent : List Char} :
      IsMantissa body → IsExponent exponent → IsNumeral (body ++ exponent)
  | hexadecimal {radix digits : List Char} :
      radix ∈ [['0', 'x'], ['0', 'X']] → IsRun isHexDigit digits → IsNumeral (radix ++ digits)

end Scanner

namespace Lexeme

/-- Whether a text belongs to the class of its lexeme. -/
inductive Spelled : Lexeme → Prop where
  | keyword {text : String} :
      Scanner.IsWord text.toList → text ∈ keywords → Spelled ⟨.keyword, text⟩
  | identifier {text : String} :
      Scanner.IsWord text.toList → text ∉ keywords → Spelled ⟨.identifier, text⟩
  | number {text : String} : Scanner.IsNumeral text.toList → Spelled ⟨.number, text⟩
  | operator {text : String} : text ∈ operators → Spelled ⟨.operator, text⟩
  | punctuation {c : Char} : c ∈ punctuationMarks → Spelled ⟨.punctuation, String.ofList [c]⟩

/-- What may follow a lexeme directly. A word takes all word characters, a number all that
continues it, an operator is the longest of the table, and a slash opens no comment. -/
def EndsBefore (lexeme : Lexeme) (rest : List Char) : Prop :=
  match lexeme.kind with
  | .keyword | .identifier => ∀ c ∈ rest.head?, Scanner.isWordCharacter c = false
  | .number => ∀ c ∈ rest.head?,
      if (Literal.hexDigits? lexeme.text.toList).isSome then Scanner.isHexDigit c = false
      else Scanner.isWordCharacter c = false ∧ (c = '.' → Literal.isFractional lexeme.text = true)
  | .operator =>
      (∀ mark ∈ operators, mark.toList <+: lexeme.text.toList ++ rest →
        mark.length ≤ lexeme.text.length) ∧
      (lexeme.text = "/" → ∀ c ∈ rest.head?, c ≠ '/' ∧ c ≠ '*')
  | .punctuation | .endOfInput => True

end Lexeme

/-- A text cut into gaps and lexemes, with the tokens at their places behind the text before. -/
inductive Cut : List Char → List Char → List Token → Prop where
  | finish {before gap : List Char} :
      Scanner.IsGap True gap →
      Cut before gap [⟨Lexeme.endOfInput, Location.behind (before ++ gap)⟩]
  | token {before gap rest : List Char} {lexeme : Lexeme} {tokens : List Token} :
      Scanner.IsGap False gap → lexeme.Spelled → lexeme.EndsBefore rest →
      Cut (before ++ gap ++ lexeme.text.toList) rest tokens →
      Cut before (gap ++ lexeme.text.toList ++ rest)
        (⟨lexeme, Location.behind (before ++ gap)⟩ :: tokens)

end ScalarC
