import ScalarC.Literal
import ScalarC.Operator
import ScalarC.Scope

/-!
Operands of expressions. An operand built from literals alone has no type of its
own: it stays pending until a sibling, an operator, a cast or the place it
stands in decides its type, and only then are its nodes built.
-/

namespace ScalarC

/-- An expression of literals only, whose type is still open. -/
inductive Pending where
  | literal (written : Literal)
  | neg (inner : Pending)
  | binary (operator : Arithmetic) (left right : Pending) (place : Location)
  deriving DecidableEq

inductive Operand where
  | typed (node : Node)
  | pending (expression : Pending)

/-- The type of a node used as a value; only a call of a `void` function has none. -/
def Node.valueType (node : Node) (operator : String) (place : Location) :
    Except ParseError DataType :=
  match node.type with
  | some type => .ok type
  | none => .error (.typeMismatch (.voidOperand operator) place)

def Arithmetic.node (operator : Arithmetic) (type : DataType) (left right : Node)
    (place : Location) : Except ParseError Node :=
  if operator = .rem ∧ type.isInteger = false then
    .error (.typeMismatch (.fractionalRemainder type) place)
  else .ok ⟨operator.tag, none, some type, [left, right]⟩

namespace Pending

def hasFraction : Pending → Bool
  | .literal written => Literal.isFractional written.text
  | .neg inner => inner.hasFraction
  | .binary _ left right _ => left.hasFraction || right.hasFraction

/-- The type of a pending expression with nothing around it. -/
def naturalType (expression : Pending) : DataType :=
  if expression.hasFraction then .f64 else .literalDefault

def build (type : DataType) : Pending → Except ParseError Node
  | .literal written => written.node type
  | .neg inner => do
      let node ← inner.build type
      return ⟨.neg, none, some type, [node]⟩
  | .binary operator left right place => do
      let leftNode ← left.build type
      let rightNode ← right.build type
      operator.node type leftNode rightNode place

end Pending

namespace Operand

/-- The node of an operand; a pending one gets the type given. -/
def freeze (type : DataType) : Operand → Except ParseError Node
  | typed node => .ok node
  | pending expression => expression.build type

/-- Gives both operands of an operator one type. A pending one takes the type of
the other, and two pending ones that of a literal by itself. -/
def unify (operator : String) (place : Location) :
    Operand → Operand → Except ParseError (DataType × Node × Node)
  | typed left, typed right => do
      let leftType ← left.valueType operator place
      let rightType ← right.valueType operator place
      if leftType = rightType then .ok (leftType, left, right)
      else .error (.typeMismatch (.operandsDiffer operator leftType rightType) place)
  | typed left, pending right => do
      let type ← left.valueType operator place
      let rightNode ← right.build type
      return (type, left, rightNode)
  | pending left, typed right => do
      let type ← right.valueType operator place
      let leftNode ← left.build type
      return (type, leftNode, right)
  | pending left, pending right => do
      let leftNode ← left.build .literalDefault
      let rightNode ← right.build .literalDefault
      return (.literalDefault, leftNode, rightNode)

def arithmetic (operator : Arithmetic) (place : Location) :
    Operand → Operand → Except ParseError Operand
  | pending left, pending right => .ok (pending (.binary operator left right place))
  | left, right => do
      let (type, leftNode, rightNode) ← unify operator.symbol place left right
      let node ← operator.node type leftNode rightNode place
      return typed node

/-- A comparison is of type `i32`, so what stands around it never types its
operands. -/
def comparison (operator : Comparison) (place : Location) (left right : Operand) :
    Except ParseError Operand := do
  let (_, leftNode, rightNode) ← unify operator.symbol place left right
  return typed ⟨operator.tag, none, some .i32, [leftNode, rightNode]⟩

/-- An operand of a logical operator, which has to be of type `i32`. -/
def truthValue (operator : String) (place : Location) (operand : Operand) :
    Except ParseError Node := do
  let node ← operand.freeze .i32
  DataType.i32.require node.type ("operand of '" ++ operator ++ "'") place
  return node

def connective (operator : Connective) (place : Location) (left right : Operand) :
    Except ParseError Operand := do
  let leftNode ← left.truthValue operator.symbol place
  let rightNode ← right.truthValue operator.symbol place
  return typed ⟨operator.tag, none, some .i32, [leftNode, rightNode]⟩

def binary (operator : BinaryOperator) (place : Location) (left right : Operand) :
    Except ParseError Operand :=
  match operator with
  | .connective operator => connective operator place left right
  | .comparison operator => comparison operator place left right
  | .arithmetic operator => arithmetic operator place left right

/-- A minus sign before a single literal makes it negative; before anything else
it is an operator. -/
def negate (place : Location) : Operand → Except ParseError Operand
  | pending (.literal written) =>
      .ok (pending (.literal { written with negative := !written.negative }))
  | pending expression => .ok (pending (.neg expression))
  | typed node => do
      let type ← node.valueType "-" place
      return typed ⟨.neg, none, some type, [node]⟩

def complement (place : Location) (operand : Operand) : Except ParseError Operand := do
  let node ← operand.truthValue "!" place
  return typed ⟨.not, none, some .i32, [node]⟩

/-- A node converted to another type; one that has the type already stays. -/
def convert (target : DataType) (place : Location) (node : Node) :
    Except ParseError Operand := do
  let type ← node.valueType "cast" place
  if type = target then .ok (typed node)
  else .ok (typed ⟨.cast, none, some target, [node]⟩)

/-- A literal whose spelling suits the target is written in it directly. Other
pending operands are built at their natural type and then converted. -/
def cast (target : DataType) (place : Location) : Operand → Except ParseError Operand
  | pending (.literal written) =>
      if target.isFloat || !Literal.isFractional written.text then do
        let node ← written.node target
        return typed node
      else do
        let node ← written.node (Pending.literal written).naturalType
        convert target place node
  | pending expression => do
      let node ← expression.build expression.naturalType
      convert target place node
  | typed node => convert target place node

end Operand

namespace Variable

def get (source : Variable) : Node :=
  ⟨if source.storage.isLocal then .localGet else .globalGet,
    some (.name source.name), some source.type, []⟩

def set (target : Variable) (value : Node) : Node :=
  ⟨if target.storage.isLocal then .localSet else .globalSet,
    some (.name target.name), some target.type, [value]⟩

end Variable

end ScalarC
