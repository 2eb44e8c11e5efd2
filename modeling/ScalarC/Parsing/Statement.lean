import ScalarC.Parsing.Expression

/-!
Statements. A parser of a compound statement is given the parser of the
statements inside it, and `statementWithin` ties the knot like the one for
expressions does. Local variables belong to the whole function: a block opens no
scope of its own. The body of an `if` or a loop is a block in the tree, whether
it has braces or not.
-/

namespace ScalarC.Statement

/-- Statements up to a closing brace, which is not read, or the end of input. -/
def sequence (statement : Parse Node) : Nat → Parse (List Node)
  | 0 => return []
  | bound + 1 => do
      let token ← Parse.peek
      let left ← Parse.unreadCount
      if token.toLexeme = .punctuation "\x7d" ∨ left = 0 then return []
      else do
        let first ← statement
        let others ← sequence statement bound
        return first :: others

/-- The statements of a block whose opening brace has been read. -/
def braced (statement : Parse Node) (context : String) : Parse (List Node) := do
  let bound ← Parse.unreadCount
  let statements ← sequence statement bound
  Parse.expectPunctuation "\x7d" context
  return statements

def block (statement : Parse Node) : Parse Node := do
  let statements ← braced statement "after block"
  return ⟨.block, none, none, statements⟩

/-- A block, or a single statement as a block of its own. -/
def body (statement : Parse Node) : Parse Node := do
  let opened ← Parse.accept (.punctuation "\x7b")
  if opened then block statement
  else do
    let single ← statement
    return ⟨.block, none, none, [single]⟩

def condition (before after : String) : Parse Node := do
  Parse.expectPunctuation "(" before
  let test ← Expression.ofType .i32 "condition"
  Parse.expectPunctuation ")" after
  return test

/-- A local variable, which is declared only once its statement is complete. -/
def localDeclaration : Parse Node := do
  let type ← declaredType
  let name ← Parse.expectIdentifier
  let isFunction ← Parse.sees (.punctuation "(")
  if isFunction then Parse.fail .nestedFunction
  else do
    let initialized ← Parse.accept (.operator "=")
    let value ← Parse.onlyIf initialized (Expression.ofType type "initializer")
    Parse.expectPunctuation ";" "after variable declaration"
    Parse.declare fun scope => scope.declareLocal name.text type name.location
    return ⟨.localVar, some (.name name.text), some type, value⟩

/-- The value behind `return`, which stands there exactly if the function has a
return type. `place` is that of the word. -/
def returnValue (function : Enclosing) (place : Location) : Parse (List Node) := do
  let next ← Parse.peek
  let ends ← Parse.sees (.punctuation ";")
  match function.returnType, ends with
  | some type, true =>
      Parse.raise (.typeMismatch (.missingReturnValue function.name type) place)
  | none, false => Parse.raise (.typeMismatch (.returnValueFromVoid function.name) next.location)
  | some type, false => do
      let value ← Expression.ofType type "return value"
      return [value]
  | none, true => return []

def returns (place : Location) : Parse Node := do
  let function? ← Parse.enclosing
  match function? with
  | none => Parse.raise (.malformed .returnOutsideFunction place)
  | some function => do
      let value ← returnValue function place
      Parse.expectPunctuation ";" "after return"
      return ⟨.returned, some (.name function.name), function.returnType, value⟩

/-- An `else` belongs to the nearest `if`. -/
def branches (statement : Parse Node) : Parse Node := do
  let test ← condition "after 'if'" "after if condition"
  let chosen ← body statement
  let hasAlternative ← Parse.accept (.keyword "else")
  let alternative ← Parse.onlyIf hasAlternative (body statement)
  return ⟨.branch, none, none, test :: chosen :: alternative⟩

def repeatsWhile (statement : Parse Node) : Parse Node := do
  let test ← condition "after 'while'" "after while condition"
  let repeated ← Parse.inLoop (body statement)
  return ⟨.whileLoop, none, none, [test, repeated]⟩

def repeatsDo (statement : Parse Node) : Parse Node := do
  let repeated ← Parse.inLoop (body statement)
  Parse.expect (.keyword "while") "after do body"
  let test ← condition "after 'while'" "after do-while condition"
  Parse.expectPunctuation ";" "after do-while"
  return ⟨.doLoop, none, none, [repeated, test]⟩

def jump (tag : Tag) (word : Token) : Parse Node := do
  let depth ← Parse.loopDepth
  if depth = 0 then Parse.raise (.malformed (.jumpOutsideLoop word.text) word.location)
  else do
    Parse.expectPunctuation ";" ("after '" ++ word.text ++ "'")
    return ⟨tag, none, none, []⟩

/-- An expression for its effect. Assignments stand on their own; the value of
anything else is discarded. -/
def expression : Parse Node := do
  let operand ← Expression.operand
  let node ← Parse.ofExcept (operand.freeze .literalDefault)
  Parse.expectPunctuation ";" "after expression"
  if node.tag = .localSet ∨ node.tag = .globalSet then return node
  else return ⟨.expression, none, none, [node]⟩

def opened (statement : Parse Node) (word : StatementWord) : Parse Node :=
  match word with
  | .alternative => Parse.fail .elseWithoutIf
  | .repeatsFor => Parse.fail .forLoop
  | .returns => do
      let token ← Parse.advance
      returns token.location
  | .branches => do
      let _ ← Parse.advance
      branches statement
  | .repeatsWhile => do
      let _ ← Parse.advance
      repeatsWhile statement
  | .repeatsDo => do
      let _ ← Parse.advance
      repeatsDo statement
  | .breaks => do
      let token ← Parse.advance
      jump .breakLoop token
  | .continues => do
      let token ← Parse.advance
      jump .continueLoop token

/-- A statement opened by a keyword, which comes next. Keywords that open no
statement stand in type position. -/
def keyword (statement : Parse Node) (text : String) : Parse Node :=
  match StatementWord.ofText? text with
  | some word => opened statement word
  | none => if text = "const" then Parse.fail .constInFunction else localDeclaration

/-- A statement that no keyword opens. Two names in a row can only declare a
variable of an unknown type. -/
def plain (statement : Parse Node) : Parse Node := do
  let isBlock ← Parse.accept (.punctuation "\x7b")
  if isBlock then block statement
  else do
    let token ← Parse.peek
    let named ← Parse.seesIdentifierAhead
    if token.kind = .identifier ∧ named then localDeclaration else expression

def statementWithin : Nat → Parse Node
  | 0 => do
      let token ← Parse.peek
      Parse.fail (.missingExpression token.toLexeme)
  | bound + 1 => do
      let token ← Parse.peek
      if token.kind = .keyword then keyword (statementWithin bound) token.text
      else plain (statementWithin bound)

def statement : Parse Node := do
  let bound ← Parse.unreadCount
  statementWithin bound

end ScalarC.Statement
