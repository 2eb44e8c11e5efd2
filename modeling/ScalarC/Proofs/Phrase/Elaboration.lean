import ScalarC.Proofs.Outcome
import ScalarC.Proofs.Phrase.Basic

/-!
Elaboration in a second pass: a phrase is typed from the outside in, once it has
been read as a whole. A phrase of literals only is elaborated at the type that
its place gives it; a phrase with anything else in it has its own type, and
gives it to its literal sibling. Nothing is pending here, and an elaboration
that fails has no node.
-/

namespace ScalarC

def Literal.toggled (literal : Literal) : Literal := { literal with negative := !literal.negative }

def Literal.node? (literal : Literal) (type : DataType) : Option Node :=
  (literal.node type).toOption

theorem Literal.node?_eq_some {literal : Literal} {type : DataType} {node : Node} :
    literal.node? type = some node ↔
      ∃ value, literal.value type = .ok value ∧ node = ⟨.number, some value, some type, []⟩ := by
  simp only [node?, toOption_eq_some, Literal.node, bind_eq_ok, pure_ok, Except.ok.injEq]
  exact exists_congr fun value => and_congr_right fun _ => eq_comm

/-- Whether the spelling of a literal suits a type, whatever its value. -/
def Literal.suits (literal : Literal) (type : DataType) : Bool :=
  type.isFloat || !Literal.isFractional literal.text

/-- A node converted to a type; one that has it already stays. -/
def Node.converted (target : DataType) (node : Node) : Option Node := do
  let type ← node.type
  if type = target then some node else some ⟨.cast, none, some target, [node]⟩

def Node.ofType? (expected : DataType) (node : Node) : Option Node :=
  if node.type = some expected then some node else none

namespace Phrase

/-- Numbers, parentheses, minus signs and arithmetic operators, and nothing else. -/
def isLiteral : Phrase → Bool
  | number _ => true
  | group _ inner => inner.isLiteral
  | negate _ inner => inner.isLiteral
  | binary (.arithmetic _) _ left right => left.isLiteral && right.isLiteral
  | _ => false

/-- The literal a phrase is, with its parentheses and its signs. -/
def single? : Phrase → Option Literal
  | number token => some ⟨token.text, false, token.location⟩
  | group _ inner => inner.single?
  | negate _ inner => inner.single?.map Literal.toggled
  | _ => none

/-- The literals of a phrase of literals, each with the signs in front of it alone. -/
def literals : Phrase → List Literal
  | number token => [⟨token.text, false, token.location⟩]
  | group _ inner => inner.literals
  | negate _ inner => match inner.single? with
      | some literal => [literal.toggled]
      | none => inner.literals
  | binary _ _ left right => left.literals ++ right.literals
  | _ => []

def hasRemainder : Phrase → Bool
  | group _ inner => inner.hasRemainder
  | negate _ inner => inner.hasRemainder
  | binary operator _ left right =>
      operator = .arithmetic .rem || left.hasRemainder || right.hasRemainder
  | _ => false

/-- The type of a phrase of literals that nothing around it decides. -/
def naturalType (phrase : Phrase) : DataType :=
  if phrase.literals.any (fun literal => Literal.isFractional literal.text) then .f64 else .i32

/-- One side of an operator: whether it is made of literals only, and its node at a type. -/
structure Side where
  isLiteral : Bool
  nodeAt : DataType → Option Node

/-- Both sides of an operator at one type. A side of literals takes the type of the other; two
such sides take the type given, and two others have to be of one type by themselves. -/
def Side.unified (given : DataType) (left right : Side) : Option (DataType × Node × Node) :=
  match left.isLiteral, right.isLiteral with
  | true, true => do
      let first ← left.nodeAt given
      let second ← right.nodeAt given
      some (given, first, second)
  | true, false => do
      let second ← right.nodeAt given
      let type ← second.type
      let first ← left.nodeAt type
      some (type, first, second)
  | false, true => do
      let first ← left.nodeAt given
      let type ← first.type
      let second ← right.nodeAt type
      some (type, first, second)
  | false, false => do
      let first ← left.nodeAt given
      let second ← right.nodeAt given
      let type ← first.type
      if second.type = some type then some (type, first, second) else none

/-- The node of an arithmetic operator; a remainder has to be of an integer type. -/
def arithmeticNode (operator : Arithmetic) (sides : DataType × Node × Node) : Option Node :=
  if operator = .rem ∧ sides.1.isFloat then none
  else some ⟨operator.tag, none, some sides.1, [sides.2.1, sides.2.2]⟩

mutual

/-- The node of a phrase where a literal would be of type `expected`. -/
def elaborate (scope : Scope) : Phrase → DataType → Option Node
  | number token, expected => Literal.node? ⟨token.text, false, token.location⟩ expected
  | reference name, _ => (scope.find? name.text).map Variable.get
  | call name given _, _ => do
      let signature ← scope.function? name.text
      let nodes ← elaborateAll scope given signature.parameters
      some ⟨.call, some (.name name.text), signature.returnType, nodes⟩
  | group _ inner, expected => inner.elaborate scope expected
  | negate _ inner, expected => match inner.single? with
      | some literal => literal.toggled.node? expected
      | none => do
          let node ← inner.elaborate scope expected
          let type ← node.type
          some ⟨.neg, none, some type, [node]⟩
  | complement _ inner, _ => do
      let node ← inner.elaborate scope .i32
      let truth ← node.ofType? .i32
      some ⟨.not, none, some .i32, [truth]⟩
  | cast _ target inner, _ =>
      match inner.single?.filter (·.suits target) with
      | some literal => literal.node? target
      | none => do
          let node ← inner.elaborate scope inner.naturalType
          node.converted target
  | binary (.connective operator) _ left right, _ => do
      let first ← left.elaborate scope .i32
      let left ← first.ofType? .i32
      let second ← right.elaborate scope .i32
      let right ← second.ofType? .i32
      some ⟨operator.tag, none, some .i32, [left, right]⟩
  | binary (.comparison operator) _ left right, _ => do
      let (_, first, second) ← Side.unified .i32 ⟨left.isLiteral, left.elaborate scope⟩
        ⟨right.isLiteral, right.elaborate scope⟩
      some ⟨operator.tag, none, some .i32, [first, second]⟩
  | binary (.arithmetic operator) _ left right, expected => do
      let sides ← Side.unified expected ⟨left.isLiteral, left.elaborate scope⟩
        ⟨right.isLiteral, right.elaborate scope⟩
      arithmeticNode operator sides
  | assign name .plain _ value, _ => do
      let target ← scope.find? name.text
      if target.storage = .globalConstant then none
      else do
        let node ← value.elaborate scope target.type
        let stored ← node.ofType? target.type
        some (target.set stored)
  | assign name (.compound operator) _ value, _ => do
      let target ← scope.find? name.text
      if target.storage = .globalConstant then none
      else do
        let sides ← Side.unified target.type ⟨false, fun _ => some target.get⟩
          ⟨value.isLiteral, value.elaborate scope⟩
        let stored ← arithmeticNode operator sides
        some (target.set stored)

/-- Arguments, each elaborated at the type of its parameter, and as many as there are. -/
def elaborateAll (scope : Scope) : List Phrase → List DataType → Option (List Node)
  | [], [] => some []
  | phrase :: given, type :: types => do
      let node ← phrase.elaborate scope type
      let argument ← node.ofType? type
      let arguments ← elaborateAll scope given types
      some (argument :: arguments)
  | _, _ => none

end

/-- A phrase as one side of an operator. -/
def side (scope : Scope) (phrase : Phrase) : Side :=
  ⟨phrase.isLiteral, phrase.elaborate scope⟩

/-- Whether a phrase has a node where a value of type `expected` has to stand. -/
def Yields (scope : Scope) (expected : DataType) (phrase : Phrase) (node : Node) : Prop :=
  phrase.elaborate scope expected = some node ∧ node.type = some expected

/-- Nothing but literals, signs and operators of one type. -/
inductive Uniform (type : DataType) : Node → Prop where
  | intro {tag : Tag} {value : Option NodeValue} {children : List Node} :
      (∀ child ∈ children, Uniform type child) → Uniform type ⟨tag, value, some type, children⟩

theorem Uniform.type {expected : DataType} {node : Node} (uniform : Uniform expected node) :
    node.type = some expected := by
  cases uniform
  rfl

theorem uniform_number {literal : Literal} {type : DataType} {node : Node}
    (is : literal.node? type = some node) : Uniform type node := by
  obtain ⟨value, _, rfl⟩ := Literal.node?_eq_some.mp is
  exact .intro (by simp)

section Literals

variable {scope : Scope} {type : DataType}

theorem elaborate_literal_arithmetic {left right : Phrase} {operator : Arithmetic} {mark : Token}
    (literal : (left.isLiteral && right.isLiteral) = true) :
    (binary (.arithmetic operator) mark left right).elaborate scope type = (do
      let first ← left.elaborate scope type
      let second ← right.elaborate scope type
      arithmeticNode operator (type, first, second)) := by
  obtain ⟨leftLiteral, rightLiteral⟩ := Bool.and_eq_true_iff.mp literal
  simp [elaborate, Side.unified, leftLiteral, rightLiteral, Option.bind_assoc]

theorem literal_uniform {phrase : Phrase} (literal : phrase.isLiteral = true) {node : Node}
    (elaborated : phrase.elaborate scope type = some node) : Uniform type node := by
  induction phrase generalizing node with
  | number token => exact uniform_number elaborated
  | group opening inner ih => exact ih literal elaborated
  | negate mark inner ih =>
      cases single : inner.single? with
      | some written =>
          simp only [elaborate, single] at elaborated
          exact uniform_number elaborated
      | none =>
          simp only [elaborate, single, Option.bind_eq_bind, Option.bind_eq_some_iff,
            Option.some.injEq] at elaborated
          obtain ⟨node, inner, type, same, rfl⟩ := elaborated
          have uniform := ih literal inner
          rw [uniform.type] at same
          cases same
          exact .intro (by simpa using uniform)
  | binary operator mark left right first second =>
      cases operator with
      | arithmetic operator =>
          rw [elaborate_literal_arithmetic literal] at elaborated
          obtain ⟨leftLiteral, rightLiteral⟩ := Bool.and_eq_true_iff.mp literal
          simp only [Option.bind_eq_bind, Option.bind_eq_some_iff, arithmeticNode,
            Option.ite_none_left_eq_some, Option.some.injEq] at elaborated
          obtain ⟨one, left, other, right, _, rfl⟩ := elaborated
          exact .intro (by simpa using ⟨first leftLiteral left, second rightLiteral right⟩)
      | comparison | connective => cases literal
  | _ => cases literal

theorem remainder_of_single {phrase : Phrase} {literal : Literal}
    (single : phrase.single? = some literal) : phrase.hasRemainder = false := by
  induction phrase generalizing literal with
  | number => rfl
  | group _ _ ih => exact ih single
  | negate _ _ ih =>
      obtain ⟨inner, single, _⟩ := Option.map_eq_some_iff.mp single
      exact ih single
  | _ => cases single

/-- Literals fail at a type when one of them is not valid for it, or when it has no
remainders. -/
theorem literal_fails_iff {phrase : Phrase} (literal : phrase.isLiteral = true) :
    phrase.elaborate scope type = none ↔
      (∃ written ∈ phrase.literals, written.node? type = none) ∨
        phrase.hasRemainder = true ∧ type.isFloat = true := by
  induction phrase with
  | number token => simp [elaborate, literals, hasRemainder]
  | group opening inner ih => exact ih literal
  | negate mark inner ih =>
      cases single : inner.single? with
      | some written => simp [elaborate, single, literals, hasRemainder, remainder_of_single single]
      | none =>
          have fails := ih literal
          simp only [elaborate, single, literals, hasRemainder, ← fails]
          cases elaborated : inner.elaborate scope type with
          | none => simp
          | some node =>
              have uniform := literal_uniform (show inner.isLiteral = true from literal) elaborated
              simp [uniform.type]
  | binary operator mark left right first second =>
      cases operator with
      | arithmetic operator =>
          obtain ⟨leftLiteral, rightLiteral⟩ := Bool.and_eq_true_iff.mp literal
          have fails : (binary (.arithmetic operator) mark left right).elaborate scope type = none ↔
              left.elaborate scope type = none ∨ right.elaborate scope type = none ∨
                operator = .rem ∧ type.isFloat = true := by
            rw [elaborate_literal_arithmetic literal]
            cases left.elaborate scope type <;> cases right.elaborate scope type <;>
              simp [arithmeticNode]
          rw [fails, first leftLiteral, second rightLiteral]
          simp only [literals, hasRemainder, List.mem_append, or_and_right, exists_or,
            Bool.or_eq_true, decide_eq_true_eq, BinaryOperator.arithmetic.injEq]
          grind
      | comparison | connective => cases literal
  | _ => cases literal

end Literals

end Phrase

end ScalarC
