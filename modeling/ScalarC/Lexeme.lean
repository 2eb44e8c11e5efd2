import ScalarC.Location

/-!
Lexemes: a kind and a text, and tokens: lexemes at their place in the source.
The words and marks of the language stand here; `describe` is how a message
names a lexeme it did not expect.
-/

namespace ScalarC

inductive TokenKind where
  | keyword
  | identifier
  | number
  | operator
  | punctuation
  | endOfInput
  deriving DecidableEq

structure Lexeme where
  kind : TokenKind
  text : String
  deriving DecidableEq

structure Token extends Lexeme where
  location : Location
  deriving DecidableEq

namespace Lexeme

def keyword (word : String) : Lexeme := ⟨.keyword, word⟩

def operator (mark : String) : Lexeme := ⟨.operator, mark⟩

def punctuation (mark : String) : Lexeme := ⟨.punctuation, mark⟩

def endOfInput : Lexeme := ⟨.endOfInput, ""⟩

/-- Words that are keywords rather than identifiers. Some of them name no type
of the machine and are refused where a type is read. -/
def keywords : List String :=
  ["int", "long", "float", "double", "void", "const", "char", "short", "unsigned", "signed",
    "return", "if", "else", "while", "do", "for", "break", "continue"]

/-- Longer operators stand before the ones they begin with. -/
def operators : List String :=
  ["+=", "-=", "*=", "/=", "%=", "==", "!=", "<=", ">=", "&&", "||",
    "+", "-", "*", "/", "%", "=", "<", ">", "!"]

def punctuationMarks : List Char := ['(', ')', '\x7b', '\x7d', ',', ';']

def describe (lexeme : Lexeme) : String :=
  match lexeme.kind with
  | .keyword | .operator | .punctuation => "'" ++ lexeme.text ++ "'"
  | .identifier => "identifier '" ++ lexeme.text ++ "'"
  | .number => "number " ++ lexeme.text
  | .endOfInput => "end of input"

@[simp] theorem keyword_kind (word : String) : (keyword word).kind = .keyword := rfl

@[simp] theorem operator_kind (mark : String) : (operator mark).kind = .operator := rfl

@[simp] theorem punctuation_kind (mark : String) : (punctuation mark).kind = .punctuation := rfl

@[simp] theorem keyword_inj {first second : String} :
    keyword first = keyword second ↔ first = second := by
  simp [keyword]

@[simp] theorem operator_inj {first second : String} :
    operator first = operator second ↔ first = second := by
  simp [operator]

@[simp] theorem punctuation_inj {first second : String} :
    punctuation first = punctuation second ↔ first = second := by
  simp [punctuation]

@[simp] theorem punctuation_ne_operator (first second : String) :
    punctuation first ≠ operator second := by
  simp [punctuation, operator]

@[simp] theorem operator_ne_punctuation (first second : String) :
    operator first ≠ punctuation second := by
  simp [punctuation, operator]

@[simp] theorem punctuation_ne_keyword (first second : String) :
    punctuation first ≠ keyword second := by
  simp [punctuation, keyword]

@[simp] theorem operator_ne_keyword (first second : String) :
    operator first ≠ keyword second := by
  simp [operator, keyword]

@[simp] theorem keyword_ne_punctuation (first second : String) :
    keyword first ≠ punctuation second := by
  simp [punctuation, keyword]

end Lexeme

end ScalarC
