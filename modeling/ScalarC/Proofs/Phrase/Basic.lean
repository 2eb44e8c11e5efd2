import ScalarC.Operand

/-!
Phrases: expressions as they are written, before anything is typed. A phrase
keeps the tokens that its errors and its nodes need. `Phrase.operand` types one
from the inside out and leaves literals pending, in the order in which a reader
of the tokens meets them.
-/

namespace ScalarC

inductive Phrase where
  | number (token : Token)
  | reference (name : Token)
  | call (name : Token) (given : List Phrase) (closing : Token)
  | group (opening : Token) (inner : Phrase)
  | negate (mark : Token) (inner : Phrase)
  | complement (mark : Token) (inner : Phrase)
  | cast (opening : Token) (target : DataType) (inner : Phrase)
  | binary (operator : BinaryOperator) (mark : Token) (left right : Phrase)
  | assign (name : Token) (form : Assignment) (mark : Token) (value : Phrase)

/-- The node of an operand where a value of one type has to stand. -/
def Operand.settle (expected : DataType) (context : String) (place : Location)
    (found : Operand) : Except ParseError Node := do
  let node ← found.freeze expected
  expected.require node.type context place
  return node

/-- The value an assignment stores, from the operand behind its operator. -/
def Assignment.stored (form : Assignment) (target : Variable) (place start : Location)
    (found : Operand) : Except ParseError Node :=
  match form with
  | .plain => found.settle target.type "assigned value" start
  | .compound operator => do
      let combined ← Operand.arithmetic operator place (.typed target.get) found
      combined.settle target.type "assigned value" start

namespace Phrase

def start : Phrase → Token
  | number token => token
  | reference name => name
  | call name _ _ => name
  | group opening _ => opening
  | negate mark _ => mark
  | complement mark _ => mark
  | cast opening _ _ => opening
  | binary _ _ left _ => left.start
  | assign name _ _ _ => name

mutual

def operand (scope : Scope) : Phrase → Except ParseError Operand
  | number token => .ok (.pending (.literal ⟨token.text, false, token.location⟩))
  | reference name => do
      let source ← scope.lookup name.text name.location
      return .typed source.get
  | call name given closing => do
      let signature ← scope.lookupFunction name.text name.location
      let nodes ← arguments scope name.text 0 given signature.parameters
      if nodes.length < signature.parameters.length then
        .error (.typeMismatch
          (.tooFewArguments name.text signature.parameters.length nodes.length) closing.location)
      else .ok (.typed ⟨.call, some (.name name.text), signature.returnType, nodes⟩)
  | group _ inner => inner.operand scope
  | negate mark inner => do
      let found ← inner.operand scope
      found.negate mark.location
  | complement mark inner => do
      let found ← inner.operand scope
      found.complement mark.location
  | cast opening target inner => do
      let found ← inner.operand scope
      found.cast target opening.location
  | binary operator mark left right => do
      let first ← left.operand scope
      let second ← right.operand scope
      first.binary operator mark.location second
  | assign name form mark value => do
      let target ← scope.lookup name.text name.location
      if target.storage = .globalConstant then
        .error (.constAssignment name.text name.location)
      else do
        let found ← value.operand scope
        let node ← form.stored target mark.location value.start.location found
        return .typed (target.set node)

def arguments (scope : Scope) (name : String) (position : Nat) :
    List Phrase → List DataType → Except ParseError (List Node)
  | [], _ => .ok []
  | first :: _, [] => .error (.typeMismatch (.tooManyArguments name position) first.start.location)
  | first :: others, type :: types => do
      let found ← first.operand scope
      let node ← found.settle type
        ("argument " ++ (position + 1).repr ++ " of '" ++ name ++ "'") first.start.location
      let nodes ← arguments scope name (position + 1) others types
      return node :: nodes

end

/-- The node of a phrase where a value of one type has to stand. -/
def settled (scope : Scope) (expected : DataType) (context : String) (phrase : Phrase) :
    Except ParseError Node := do
  let found ← phrase.operand scope
  found.settle expected context phrase.start.location

@[elab_as_elim, induction_eliminator]
theorem induct {motive : Phrase → Prop}
    (number : ∀ token, motive (.number token))
    (reference : ∀ name, motive (.reference name))
    (call : ∀ name given closing, (∀ phrase ∈ given, motive phrase) →
      motive (.call name given closing))
    (group : ∀ opening inner, motive inner → motive (.group opening inner))
    (negate : ∀ mark inner, motive inner → motive (.negate mark inner))
    (complement : ∀ mark inner, motive inner → motive (.complement mark inner))
    (cast : ∀ opening target inner, motive inner → motive (.cast opening target inner))
    (binary : ∀ operator mark left right, motive left → motive right →
      motive (.binary operator mark left right))
    (assign : ∀ name form mark value, motive value → motive (.assign name form mark value))
    (phrase : Phrase) : motive phrase :=
  visit phrase
where
  visit : ∀ phrase, motive phrase
  | .number token => number token
  | .reference name => reference name
  | .call name given closing => call name given closing fun inner _ => visit inner
  | .group opening inner => group opening inner (visit inner)
  | .negate mark inner => negate mark inner (visit inner)
  | .complement mark inner => complement mark inner (visit inner)
  | .cast opening target inner => cast opening target inner (visit inner)
  | .binary operator mark left right => binary operator mark left right (visit left) (visit right)
  | .assign name form mark value => assign name form mark value (visit value)

end Phrase

end ScalarC
