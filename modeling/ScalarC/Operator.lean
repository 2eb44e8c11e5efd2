import ScalarC.Lexeme
import ScalarC.Node.Basic

/-!
The words and marks that steer a parser: the operators of expressions, how they
are spelled, the tags of their nodes and how tightly the binary ones bind; and
the keywords that open a statement, which can never name a type.
-/

namespace ScalarC

inductive Arithmetic where
  | add
  | sub
  | mul
  | div
  | rem
  deriving DecidableEq

def Arithmetic.symbol : Arithmetic → String
  | add => "+"
  | sub => "-"
  | mul => "*"
  | div => "/"
  | rem => "%"

def Arithmetic.tag : Arithmetic → Tag
  | add => .add
  | sub => .sub
  | mul => .mul
  | div => .div
  | rem => .rem

inductive Comparison where
  | eq
  | ne
  | lt
  | le
  | gt
  | ge
  deriving DecidableEq

def Comparison.symbol : Comparison → String
  | eq => "=="
  | ne => "!="
  | lt => "<"
  | le => "<="
  | gt => ">"
  | ge => ">="

def Comparison.tag : Comparison → Tag
  | eq => .eq
  | ne => .ne
  | lt => .lt
  | le => .le
  | gt => .gt
  | ge => .ge

inductive Connective where
  | and
  | or
  deriving DecidableEq

def Connective.symbol : Connective → String
  | and => "&&"
  | or => "||"

def Connective.tag : Connective → Tag
  | and => .and
  | or => .or

inductive BinaryOperator where
  | connective (operator : Connective)
  | comparison (operator : Comparison)
  | arithmetic (operator : Arithmetic)
  deriving DecidableEq

def BinaryOperator.symbol : BinaryOperator → String
  | connective operator => operator.symbol
  | comparison operator => operator.symbol
  | arithmetic operator => operator.symbol

/-- Binary operators from the loosest level to the tightest. Those of one level
associate to the left. -/
def BinaryOperator.levels : List (List BinaryOperator) :=
  [[.connective .or],
    [.connective .and],
    [.comparison .eq, .comparison .ne],
    [.comparison .lt, .comparison .le, .comparison .gt, .comparison .ge],
    [.arithmetic .add, .arithmetic .sub],
    [.arithmetic .mul, .arithmetic .div, .arithmetic .rem]]

def BinaryOperator.ofLexeme? (level : List BinaryOperator) (lexeme : Lexeme) :
    Option BinaryOperator :=
  level.find? fun operator => lexeme = .operator operator.symbol

inductive Assignment where
  | plain
  | compound (operator : Arithmetic)
  deriving DecidableEq

def Assignment.ofSymbol? (symbol : String) : Option Assignment :=
  if symbol = "=" then some .plain
  else if symbol = "+=" then some (.compound .add)
  else if symbol = "-=" then some (.compound .sub)
  else if symbol = "*=" then some (.compound .mul)
  else if symbol = "/=" then some (.compound .div)
  else if symbol = "%=" then some (.compound .rem)
  else none

def Assignment.ofLexeme? (lexeme : Lexeme) : Option Assignment :=
  if lexeme.kind = .operator then ofSymbol? lexeme.text else none

inductive StatementWord where
  | returns
  | branches
  | alternative
  | repeatsWhile
  | repeatsDo
  | repeatsFor
  | breaks
  | continues
  deriving DecidableEq

def StatementWord.ofText? (text : String) : Option StatementWord :=
  if text = "return" then some .returns
  else if text = "if" then some .branches
  else if text = "else" then some .alternative
  else if text = "while" then some .repeatsWhile
  else if text = "do" then some .repeatsDo
  else if text = "for" then some .repeatsFor
  else if text = "break" then some .breaks
  else if text = "continue" then some .continues
  else none

namespace Lexeme

def isStatementWord (lexeme : Lexeme) : Bool :=
  lexeme.kind = .keyword && (StatementWord.ofText? lexeme.text).isSome

/-- A keyword in type position, whether it names a type or not. -/
def isTypeWord (lexeme : Lexeme) : Bool :=
  lexeme.kind = .keyword && (StatementWord.ofText? lexeme.text).isNone

/-- Whether a lexeme stands where a type has to: a type word, or a name directly
before another name. -/
def inTypePosition (lexeme : Lexeme) (beforeName : Bool) : Bool :=
  lexeme.isTypeWord || lexeme.kind = .identifier && beforeName

end Lexeme

end ScalarC
