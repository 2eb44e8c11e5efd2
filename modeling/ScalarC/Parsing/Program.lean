import ScalarC.Parsing.Declaration
import ScalarC.Scanner.Tokens

/-!
Programs: the typed tree of a token stream, with every name resolved and every
literal typed, or the first error. `Program.ofSource` starts from a source text.
-/

namespace ScalarC

namespace Program

def declarations : Nat → Parse (List Node)
  | 0 => return []
  | bound + 1 => do
      let left ← Parse.unreadCount
      if left = 0 then return []
      else do
        let first ← Declaration.declaration
        let others ← declarations bound
        return first :: others

def module : Parse Node := do
  let bound ← Parse.unreadCount
  let children ← declarations bound
  return ⟨.module, none, none, children⟩

end Program

def parse (tokens : List Token) : Except ParseError Node := do
  let start ← State.ofTokens tokens
  match Program.module start with
  | .ok tree _ => .ok tree
  | .error error _ => .error error

inductive SourceError where
  | lexical (error : LexError)
  | grammatical (error : ParseError)
  deriving DecidableEq

def SourceError.message : SourceError → String
  | lexical error => error.message
  | grammatical error => error.message

def Program.ofSource (source : String) : Except SourceError Node :=
  match tokenize source with
  | .error error => .error (.lexical error)
  | .ok tokens => (parse tokens).mapError .grammatical

end ScalarC
