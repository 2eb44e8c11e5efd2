import ScalarC.Parsing.Statement

/-!
Declarations of a module: global variables, whose initial values are signed
literals, and function definitions. A global can be used once its name has been
read, a function once its parameters have; neither before.
-/

namespace ScalarC.Declaration

def initializer (type : DataType) : Parse Node := do
  let negative ← Parse.accept (.operator "-")
  let token ← Parse.peek
  if token.kind = .number then do
    let _ ← Parse.advance
    Parse.ofExcept (Literal.node ⟨token.text, negative, token.location⟩ type)
  else Parse.fail (.missingLiteral token.toLexeme)

/-- The value behind the name of a global; a constant has to have one. -/
def globalValue (name : Token) (type : DataType) (constant : Bool) : Parse (List Node) := do
  let initialized ← Parse.accept (.operator "=")
  if constant && !initialized then
    Parse.raise (.malformed (.constWithoutValue name.text) name.location)
  else Parse.onlyIf initialized (initializer type)

def global : Parse Node := do
  let constant ← Parse.accept (.keyword "const")
  let type ← declaredType
  let name ← Parse.expectIdentifier
  let isFunction ← Parse.sees (.punctuation "(")
  if isFunction then Parse.fail (.constFunction name.text)
  else do
    Parse.declare fun scope => scope.declareGlobal name.text type constant name.location
    let value ← globalValue name type constant
    Parse.expectPunctuation ";" "after global declaration"
    return ⟨.globalVar, some (.name name.text), some type, value⟩

/-- Parameters separated by commas, each declared as it is read. -/
def parameterList : Nat → Parse (List (String × DataType))
  | 0 => do
      let token ← Parse.peek
      Parse.fail (.missingType token.toLexeme)
  | bound + 1 => do
      let type ← declaredType
      let name ← Parse.expectIdentifier
      Parse.declare fun scope => scope.declareParameter name.text type name.location
      let more ← Parse.accept (.punctuation ",")
      if more then do
        let others ← parameterList bound
        return (name.text, type) :: others
      else return [(name.text, type)]

/-- The parameters between the parentheses; `void` alone stands for none. -/
def parameters : Parse (List (String × DataType)) := do
  let closed ← Parse.sees (.punctuation ")")
  let isVoid ← Parse.sees (.keyword "void")
  let closesNext ← Parse.seesAhead 1 (.punctuation ")")
  if closed then return []
  else if isVoid && closesNext then do
    let _ ← Parse.advance
    return []
  else do
    let bound ← Parse.unreadCount
    parameterList bound

def parameterNode (parameter : String × DataType) : Node :=
  ⟨.parameter, some (.name parameter.1), some parameter.2, []⟩

def returnType : Parse (Option DataType) := do
  let isVoid ← Parse.accept (.keyword "void")
  if isVoid then return none
  else do
    let type ← declaredType
    return some type

def declareFunction (name : Token) (signature : Signature) : Parse Unit := do
  let scope ← Parse.scope
  let declared ← Parse.ofExcept (scope.declareFunction name.text signature name.location)
  Parse.setScope declared

def enterFunction : Parse Unit := do
  let scope ← Parse.scope
  Parse.setScope scope.enterFunction

def exitFunction : Parse Unit := do
  let scope ← Parse.scope
  Parse.setScope scope.exitFunction

def functionBody (enclosing : Enclosing) : Parse (List Node) := do
  Parse.setEnclosing (some enclosing)
  Parse.expectPunctuation "\x7b" "before function body"
  let statements ← Statement.braced Statement.statement "after function body"
  Parse.setEnclosing none
  return statements

def function : Parse Node := do
  let type ← returnType
  let name ← Parse.expectIdentifier
  Parse.expectPunctuation "(" "after function name"
  enterFunction
  let given ← parameters
  Parse.expectPunctuation ")" "after parameters"
  declareFunction name ⟨type, given.map Prod.snd⟩
  let statements ← functionBody ⟨name.text, type⟩
  exitFunction
  return ⟨.function, some (.name name.text), type,
    [⟨.parameters, none, none, given.map parameterNode⟩, ⟨.body, none, none, statements⟩]⟩

/-- A declaration of the module. A parenthesis behind a type and a name makes it
a function. -/
def declaration : Parse Node := do
  let token ← Parse.peek
  let isFunction ← Parse.seesAhead 2 (.punctuation "(")
  if token.isStatementWord then
    Parse.fail (.statementOutsideFunction token.toLexeme)
  else if token.toLexeme = .keyword "const" then global
  else if isFunction then function
  else global

end ScalarC.Declaration
