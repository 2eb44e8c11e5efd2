import ScalarC.DataType
import ScalarC.Lexeme

/-!
Why a token stream is not a program. An error is a cause at a place; causes hold
no places of their own. `message` is the wording, which repeats the place.
-/

namespace ScalarC

inductive GrammarFault where
  | emptyStream
  | unterminatedStream
  | innerEndOfInput
  | missingMark (mark context : String) (found : Lexeme)
  | missingIdentifier (found : Lexeme)
  | missingType (found : Lexeme)
  | missingExpression (found : Lexeme)
  | missingLiteral (found : Lexeme)
  | statementOutsideFunction (found : Lexeme)
  | variableOutsideFunction (name : String)
  | constFunction (name : String)
  | constWithoutValue (name : String)
  | constInFunction
  | nestedFunction
  | elseWithoutIf
  | forLoop
  | returnOutsideFunction
  | jumpOutsideLoop (word : String)
  | malformedNumber (text : String)
  deriving DecidableEq

/-- Why a program cannot be typed. A missing type is that of a `void` call. -/
inductive TypeFault where
  | unexpectedType (context : String) (expected : DataType) (found : Option DataType)
  | voidOperand (operator : String)
  | operandsDiffer (operator : String) (left right : DataType)
  | fractionalRemainder (found : DataType)
  | literalNotOfType (text : String) (type : DataType)
  | literalOutOfRange (text : String) (type : DataType)
  | missingReturnValue (name : String) (type : DataType)
  | returnValueFromVoid (name : String)
  | tooManyArguments (name : String) (expected : Nat)
  | tooFewArguments (name : String) (expected found : Nat)
  deriving DecidableEq

inductive ParseError where
  | malformed (fault : GrammarFault) (location : Location)
  | unknownType (name : String) (location : Location)
  | duplicateSymbol (name : String) (location : Location)
  | undeclaredSymbol (name : String) (location : Location)
  | typeMismatch (fault : TypeFault) (location : Location)
  | constAssignment (name : String) (location : Location)
  deriving DecidableEq

def GrammarFault.message : GrammarFault → String
  | .emptyStream => "Empty token stream"
  | .unterminatedStream => "Token stream is not terminated by end of input"
  | .innerEndOfInput => "End of input before the last token"
  | .missingMark mark context found =>
      "Expected '" ++ mark ++ "' " ++ context ++ ", found " ++ found.describe
  | .missingIdentifier found => "Expected identifier, found " ++ found.describe
  | .missingType found => "Expected type, found " ++ found.describe
  | .missingExpression found => "Expected expression, found " ++ found.describe
  | .missingLiteral found =>
      "Global initializer must be a number literal, found " ++ found.describe
  | .statementOutsideFunction found =>
      found.describe ++ " is not allowed outside of a function"
  | .variableOutsideFunction name => "'" ++ name ++ "' declared outside of a function"
  | .constFunction name => "Function '" ++ name ++ "' cannot be declared const"
  | .constWithoutValue name => "Constant '" ++ name ++ "' requires an initializer"
  | .constInFunction => "'const' is only allowed at module scope"
  | .nestedFunction => "Function definitions cannot be nested"
  | .elseWithoutIf => "'else' without a matching 'if'"
  | .forLoop => "'for' loops are not supported"
  | .returnOutsideFunction => "'return' outside of a function"
  | .jumpOutsideLoop word => "'" ++ word ++ "' outside of a loop"
  | .malformedNumber text => "Malformed number literal '" ++ text ++ "'"

def TypeFault.message : TypeFault → String
  | .unexpectedType context expected found =>
      context ++ ": expected " ++ expected.name ++ ", found " ++ DataType.describe found
  | .voidOperand operator => "void value used as operand of '" ++ operator ++ "'"
  | .operandsDiffer operator left right =>
      "operands of '" ++ operator ++ "' differ: " ++ left.name ++ " and " ++ right.name
  | .fractionalRemainder found => "'%' requires integer operands, found " ++ found.name
  | .literalNotOfType text type =>
      "literal '" ++ text ++ "' is not a valid " ++ type.name ++ " value"
  | .literalOutOfRange text type =>
      "literal '" ++ text ++ "' is out of range for " ++ type.name
  | .missingReturnValue name type =>
      "function '" ++ name ++ "' must return a value of type " ++ type.name
  | .returnValueFromVoid name => "void function '" ++ name ++ "' cannot return a value"
  | .tooManyArguments name expected =>
      "too many arguments to '" ++ name ++ "': expected " ++ expected.repr
  | .tooFewArguments name expected found =>
      "too few arguments to '" ++ name ++ "': expected " ++ expected.repr ++
        ", found " ++ found.repr

namespace ParseError

def location : ParseError → Location
  | malformed _ place | unknownType _ place | duplicateSymbol _ place
  | undeclaredSymbol _ place | typeMismatch _ place | constAssignment _ place => place

def message : ParseError → String
  | malformed fault place => "Syntax error at " ++ place.describe ++ ": " ++ fault.message
  | unknownType name place => "Unknown type '" ++ name ++ "' at " ++ place.describe
  | duplicateSymbol name place => "Duplicate symbol '" ++ name ++ "' at " ++ place.describe
  | undeclaredSymbol name place => "Undeclared symbol '" ++ name ++ "' at " ++ place.describe
  | typeMismatch fault place => "Type mismatch at " ++ place.describe ++ ": " ++ fault.message
  | constAssignment name place =>
      "Cannot assign to constant '" ++ name ++ "' at " ++ place.describe

end ParseError

def DataType.declared (word : String) (place : Location) : Except ParseError DataType :=
  match DataType.ofWord? word with
  | some type => .ok type
  | none => .error (.unknownType word place)

def DataType.require (expected : DataType) (found : Option DataType) (context : String)
    (place : Location) : Except ParseError Unit :=
  if found = some expected then .ok ()
  else .error (.typeMismatch (.unexpectedType context expected found) place)

end ScalarC
