import ScalarC.Operand
import ScalarC.Parsing.State

/-!
Expressions. Each parser here is given the parser of the expressions inside it,
and `operandWithin` ties the knot: an inner expression starts behind at least
one token more, so the number of unread tokens bounds the nesting. Where a bound
is used up nothing is left to read, and the parser stops as it does at the end
of input.
-/

namespace ScalarC

def declaredType : Parse DataType := do
  let token ← Parse.peek
  let beforeName ← Parse.seesIdentifierAhead
  if token.inTypePosition beforeName then do
    let word ← Parse.advance
    Parse.ofExcept (DataType.declared word.text word.location)
  else Parse.fail (.missingType token.toLexeme)

namespace Expression

def typed (operand : Parse Operand) (expected : DataType) (context : String) : Parse Node := do
  let start ← Parse.peek
  let found ← operand
  let node ← Parse.ofExcept (found.freeze expected)
  Parse.ofExcept (expected.require node.type context start.location)
  return node

/-- Arguments of a call, each typed by its parameter. `position` counts those
already read. -/
def arguments (operand : Parse Operand) (name : String) (position : Nat) :
    List DataType → Parse (List Node)
  | [] => do
      let token ← Parse.peek
      Parse.raise (.typeMismatch (.tooManyArguments name position) token.location)
  | type :: types => do
      let context := "argument " ++ (position + 1).repr ++ " of '" ++ name ++ "'"
      let argument ← typed operand type context
      let more ← Parse.accept (.punctuation ",")
      if more then do
        let others ← arguments operand name (position + 1) types
        return argument :: others
      else return [argument]

def argumentList (operand : Parse Operand) (name : String) (types : List DataType) :
    Parse (List Node) := do
  let closed ← Parse.sees (.punctuation ")")
  if closed then return [] else arguments operand name 0 types

/-- A call; the next token is the function's name, and a parenthesis follows. -/
def call (operand : Parse Operand) : Parse Operand := do
  let name ← Parse.advance
  let _ ← Parse.advance
  let scope ← Parse.scope
  let signature ← Parse.ofExcept (scope.lookupFunction name.text name.location)
  let given ← argumentList operand name.text signature.parameters
  let next ← Parse.peek
  if given.length < signature.parameters.length then
    Parse.raise (.typeMismatch
      (.tooFewArguments name.text signature.parameters.length given.length) next.location)
  else do
    Parse.expectPunctuation ")" "after function arguments"
    return .typed ⟨.call, some (.name name.text), signature.returnType, given⟩

def variableNamed : Parse Variable := do
  let name ← Parse.advance
  let scope ← Parse.scope
  Parse.ofExcept (scope.lookup name.text name.location)

def number : Parse Operand := do
  let token ← Parse.advance
  return .pending (.literal ⟨token.text, false, token.location⟩)

def grouped (operand : Parse Operand) : Parse Operand := do
  let _ ← Parse.advance
  let inner ← operand
  Parse.expectPunctuation ")" "after expression"
  return inner

def primary (operand : Parse Operand) : Parse Operand := do
  let token ← Parse.peek
  match token.kind with
  | .number => number
  | .identifier => do
      let called ← Parse.seesAhead 1 (.punctuation "(")
      if called then call operand
      else do
        let source ← variableNamed
        return .typed source.get
  | _ =>
      if token.toLexeme = .punctuation "(" then grouped operand
      else Parse.fail (.missingExpression token.toLexeme)

/-- Whether a cast comes next: a type keyword between parentheses. -/
def seesCast : Parse Bool := do
  let opened ← Parse.sees (.punctuation "(")
  let word? ← Parse.peekAhead 1
  let closed ← Parse.seesAhead 2 (.punctuation ")")
  return opened && word?.any (·.isTypeWord) && closed

/-- Prefix operators and casts in front of a primary expression. -/
def unary (operand : Parse Operand) : Nat → Parse Operand
  | 0 => primary operand
  | bound + 1 => do
      let token ← Parse.peek
      let casts ← seesCast
      if token.toLexeme = .operator "-" then do
        let _ ← Parse.advance
        let inner ← unary operand bound
        Parse.ofExcept (inner.negate token.location)
      else if token.toLexeme = .operator "!" then do
        let _ ← Parse.advance
        let inner ← unary operand bound
        Parse.ofExcept (inner.complement token.location)
      else if casts then do
        let _ ← Parse.advance
        let target ← declaredType
        Parse.expectPunctuation ")" "after cast type"
        let inner ← unary operand bound
        Parse.ofExcept (inner.cast target token.location)
      else primary operand

/-- Joins further operands to `left` for as long as an operator of the level
comes next. -/
def chain (level : List BinaryOperator) (operand : Parse Operand) :
    Nat → Operand → Parse Operand
  | 0, left => return left
  | bound + 1, left => do
      let token ← Parse.peek
      match BinaryOperator.ofLexeme? level token.toLexeme with
      | none => return left
      | some operator => do
          let _ ← Parse.advance
          let right ← operand
          let joined ← Parse.ofExcept (left.binary operator token.location right)
          chain level operand bound joined

/-- Binary operators of the given levels, the loosest first. -/
def levels (operand : Parse Operand) : List (List BinaryOperator) → Parse Operand
  | [] => do
      let bound ← Parse.unreadCount
      unary operand bound
  | level :: tighter => do
      let left ← levels operand tighter
      let bound ← Parse.unreadCount
      chain level (levels operand tighter) bound left

/-- The value a compound assignment stores: the variable's own value joined with
the operand behind the operator. -/
def compoundValue (operand : Parse Operand) (operator : Arithmetic) (target : Variable)
    (place : Location) : Parse Node := do
  let start ← Parse.peek
  let right ← operand
  let combined ← Parse.ofExcept (Operand.arithmetic operator place (.typed target.get) right)
  let value ← Parse.ofExcept (combined.freeze target.type)
  Parse.ofExcept (target.type.require value.type "assigned value" start.location)
  return value

def storedValue (operand : Parse Operand) (form : Assignment) (target : Variable)
    (place : Location) : Parse Node :=
  match form with
  | .plain => typed operand target.type "assigned value"
  | .compound operator => compoundValue operand operator target place

/-- An assignment; the next two tokens are the variable's name and the operator. -/
def assignment (operand : Parse Operand) (form : Assignment) : Parse Operand := do
  let name ← Parse.advance
  let mark ← Parse.advance
  let scope ← Parse.scope
  let target ← Parse.ofExcept (scope.lookup name.text name.location)
  if target.storage = .globalConstant then
    Parse.raise (.constAssignment name.text name.location)
  else do
    let value ← storedValue operand form target mark.location
    return .typed (target.set value)

def assignment? : Parse (Option Assignment) := do
  let name ← Parse.peek
  let mark? ← Parse.peekAhead 1
  if name.kind = .identifier then return mark?.bind (Assignment.ofLexeme? ·.toLexeme)
  else return none

def operandWithin : Nat → Parse Operand
  | 0 => do
      let token ← Parse.peek
      Parse.fail (.missingExpression token.toLexeme)
  | bound + 1 => do
      let form? ← assignment?
      match form? with
      | some form => assignment (operandWithin bound) form
      | none => levels (operandWithin bound) BinaryOperator.levels

def operand : Parse Operand := do
  let bound ← Parse.unreadCount
  operandWithin bound

def ofType (expected : DataType) (context : String) : Parse Node :=
  typed operand expected context

end Expression

end ScalarC
