import ScalarC.Scope

/-!
What a parser knows at a point of the token stream: the tokens it has not read,
the names in scope, the function it is in and how many loops surround it. The
closing end of input is kept apart, so it can be looked at but never read. An
error keeps the state in which it arose.
-/

namespace ScalarC

structure Enclosing where
  name : String
  returnType : Option DataType
  deriving DecidableEq

structure State where
  unread : List Token
  finish : Token
  scope : Scope
  function : Option Enclosing
  loopDepth : Nat
  closes : finish.kind = .endOfInput

/-- The state before a token stream, which has to end with its only end of input. -/
def State.ofTokens (tokens : List Token) : Except ParseError State :=
  match tokens.dropLast.reverse.find? fun token => token.kind = .endOfInput with
  | some stray => .error (.malformed .innerEndOfInput stray.location)
  | none =>
      match tokens.getLast? with
      | none => .error (.malformed .emptyStream Location.start)
      | some finish =>
          if closes : finish.kind = .endOfInput then
            .ok ⟨tokens.dropLast, finish, Scope.empty, none, 0, closes⟩
          else .error (.malformed .unterminatedStream finish.location)

abbrev Parse := EStateM ParseError State

namespace Parse

variable {α : Type}

def raise (error : ParseError) : Parse α := fun state => .error error state

def ofExcept (result : Except ParseError α) : Parse α := fun state =>
  match result with
  | .ok value => .ok value state
  | .error error => .error error state

def peek : Parse Token := fun state => .ok (state.unread.headD state.finish) state

/-- The token so many places behind the next one. The end of input is not among
them. -/
def peekAhead (places : Nat) : Parse (Option Token) := fun state =>
  .ok state.unread[places]? state

def unreadCount : Parse Nat := fun state => .ok state.unread.length state

/-- Reads the next token. The end of input stays where it is. -/
def advance : Parse Token := fun state =>
  match state.unread with
  | [] => .ok state.finish state
  | token :: rest => .ok token { state with unread := rest }

def enclosing : Parse (Option Enclosing) := fun state => .ok state.function state

def loopDepth : Parse Nat := fun state => .ok state.loopDepth state

def scope : Parse Scope := fun state => .ok state.scope state

def setScope (scope : Scope) : Parse Unit := fun state => .ok () { state with scope }

def declare (declaration : Scope → Except ParseError (Variable × Scope)) : Parse Unit := do
  let before ← scope
  let (_, after) ← ofExcept (declaration before)
  setScope after

def setEnclosing (function : Option Enclosing) : Parse Unit := fun state =>
  .ok () { state with function }

def inLoop (body : Parse α) : Parse α := fun state =>
  match body { state with loopDepth := state.loopDepth + 1 } with
  | .ok value after => .ok value { after with loopDepth := after.loopDepth - 1 }
  | .error error after => .error error { after with loopDepth := after.loopDepth - 1 }

def onlyIf (wanted : Bool) (parser : Parse α) : Parse (List α) :=
  if wanted then do
    let result ← parser
    return [result]
  else return []

def fail (fault : GrammarFault) : Parse α := do
  let token ← peek
  raise (.malformed fault token.location)

def sees (lexeme : Lexeme) : Parse Bool := do
  let token ← peek
  return token.toLexeme = lexeme

def seesAhead (places : Nat) (lexeme : Lexeme) : Parse Bool := do
  let token? ← peekAhead places
  return token?.any fun token => token.toLexeme = lexeme

def seesIdentifierAhead : Parse Bool := do
  let token? ← peekAhead 1
  return token?.any fun token => token.kind = .identifier

def accept (lexeme : Lexeme) : Parse Bool := do
  let token ← peek
  if token.toLexeme = lexeme then do
    let _ ← advance
    return true
  else return false

def expect (lexeme : Lexeme) (context : String) : Parse Unit := do
  let token ← peek
  if token.toLexeme = lexeme then do
    let _ ← advance
    return ()
  else raise (.malformed (.missingMark lexeme.text context token.toLexeme) token.location)

def expectPunctuation (mark context : String) : Parse Unit :=
  expect (.punctuation mark) context

def expectIdentifier : Parse Token := do
  let token ← peek
  if token.kind = .identifier then advance
  else raise (.malformed (.missingIdentifier token.toLexeme) token.location)

end Parse

end ScalarC
