import ScalarC.Parsing.Declaration

/-!
The typing rules of trees. They look at nothing but the tree: what a call may
be given is read off the functions among the children of the module, and a
`return` is checked against the function around it.
-/

namespace ScalarC

/-- The numbers a type has. -/
def NodeValue.Suits (type : DataType) : NodeValue → Prop
  | .name _ => False
  | .int value => ∃ least greatest, Literal.integerBounds? type = some (least, greatest) ∧
      least ≤ value ∧ value ≤ greatest
  | .float value => type.isFloat = true ∧
      (if type = .f32 then value.isFinite32 else value.isFinite) = true

namespace Node

/-- Nodes that stand for values, which agree in type wherever they meet. -/
inductive IsValue (calls : String → Signature → Prop) : Node → Prop where
  | number {value : NodeValue} {type : DataType} :
      value.Suits type → IsValue calls ⟨.number, some value, some type, []⟩
  | reference {tag : Tag} {name : String} {type : DataType} :
      tag = .localGet ∨ tag = .globalGet →
      IsValue calls ⟨tag, some (.name name), some type, []⟩
  | assignment {tag : Tag} {name : String} {type : DataType} {value : Node} :
      tag = .localSet ∨ tag = .globalSet → IsValue calls value → value.type = some type →
      IsValue calls ⟨tag, some (.name name), some type, [value]⟩
  | arithmetic {operator : Arithmetic} {type : DataType} {left right : Node} :
      IsValue calls left → IsValue calls right → left.type = some type →
      right.type = some type → (operator = .rem → type.isInteger = true) →
      IsValue calls ⟨operator.tag, none, some type, [left, right]⟩
  | comparison {operator : Comparison} {type : DataType} {left right : Node} :
      IsValue calls left → IsValue calls right → left.type = some type →
      right.type = some type → IsValue calls ⟨operator.tag, none, some .i32, [left, right]⟩
  | connective {operator : Connective} {left right : Node} :
      IsValue calls left → IsValue calls right → left.type = some .i32 →
      right.type = some .i32 → IsValue calls ⟨operator.tag, none, some .i32, [left, right]⟩
  | complement {inner : Node} :
      IsValue calls inner → inner.type = some .i32 →
      IsValue calls ⟨.not, none, some .i32, [inner]⟩
  | negation {type : DataType} {inner : Node} :
      IsValue calls inner → inner.type = some type →
      IsValue calls ⟨.neg, none, some type, [inner]⟩
  | cast {type other : DataType} {inner : Node} :
      IsValue calls inner → inner.type = some other → other ≠ type →
      IsValue calls ⟨.cast, none, some type, [inner]⟩
  | call {name : String} {signature : Signature} {given : List Node} :
      calls name signature → (∀ argument ∈ given, IsValue calls argument) →
      given.map Node.type = signature.parameters.map some →
      IsValue calls ⟨.call, some (.name name), signature.returnType, given⟩

/-- Nodes that stand for statements of a function. -/
inductive IsStatement (calls : String → Signature → Prop) (function : Enclosing) :
    Node → Prop where
  | declaration {name : String} {type : DataType} :
      IsStatement calls function ⟨.localVar, some (.name name), some type, []⟩
  | initialization {name : String} {type : DataType} {value : Node} :
      value.IsValue calls → value.type = some type →
      IsStatement calls function ⟨.localVar, some (.name name), some type, [value]⟩
  | returned :
      function.returnType = none →
      IsStatement calls function ⟨.returned, some (.name function.name), none, []⟩
  | returnedValue {type : DataType} {value : Node} :
      function.returnType = some type → value.IsValue calls → value.type = some type →
      IsStatement calls function
        ⟨.returned, some (.name function.name), some type, [value]⟩
  | branch {condition chosen : Node} :
      condition.IsValue calls → condition.type = some .i32 → chosen.tag = .block →
      IsStatement calls function chosen →
      IsStatement calls function ⟨.branch, none, none, [condition, chosen]⟩
  | branchElse {condition chosen alternative : Node} :
      condition.IsValue calls → condition.type = some .i32 → chosen.tag = .block →
      IsStatement calls function chosen → alternative.tag = .block →
      IsStatement calls function alternative →
      IsStatement calls function ⟨.branch, none, none, [condition, chosen, alternative]⟩
  | whileLoop {condition repeated : Node} :
      condition.IsValue calls → condition.type = some .i32 → repeated.tag = .block →
      IsStatement calls function repeated →
      IsStatement calls function ⟨.whileLoop, none, none, [condition, repeated]⟩
  | doLoop {repeated condition : Node} :
      repeated.tag = .block → IsStatement calls function repeated →
      condition.IsValue calls → condition.type = some .i32 →
      IsStatement calls function ⟨.doLoop, none, none, [repeated, condition]⟩
  | breakLoop : IsStatement calls function ⟨.breakLoop, none, none, []⟩
  | continueLoop : IsStatement calls function ⟨.continueLoop, none, none, []⟩
  | block {statements : List Node} :
      (∀ statement ∈ statements, IsStatement calls function statement) →
      IsStatement calls function ⟨.block, none, none, statements⟩
  | expression {value : Node} :
      value.IsValue calls → IsStatement calls function ⟨.expression, none, none, [value]⟩
  | assignment {value : Node} :
      value.tag = .localSet ∨ value.tag = .globalSet → value.IsValue calls →
      IsStatement calls function value

/-- Nodes that stand for declarations of the module. The value of a global is a number. -/
inductive IsItem (calls : String → Signature → Prop) : Node → Prop where
  | global {name : String} {type : DataType} :
      IsItem calls ⟨.globalVar, some (.name name), some type, []⟩
  | initialized {name : String} {type : DataType} {value : NodeValue} :
      value.Suits type →
      IsItem calls
        ⟨.globalVar, some (.name name), some type, [⟨.number, some value, some type, []⟩]⟩
  | function {name : String} {returnType : Option DataType}
      {parameters : List (String × DataType)} {statements : List Node} :
      (∀ statement ∈ statements, statement.IsStatement calls ⟨name, returnType⟩) →
      IsItem calls ⟨.function, some (.name name), returnType,
        [⟨.parameters, none, none, parameters.map Declaration.parameterNode⟩,
          ⟨.body, none, none, statements⟩]⟩

/-- A function of the signature is among the children of a module. -/
def Offers (children : List Node) (name : String) (signature : Signature) : Prop :=
  ∃ (parameters : List (String × DataType)) (body : Node),
    signature.parameters = parameters.map Prod.snd ∧
      ⟨.function, some (.name name), signature.returnType,
        [⟨.parameters, none, none, parameters.map Declaration.parameterNode⟩, body]⟩ ∈ children

theorem Offers.mono {children others : List Node} {name : String} {signature : Signature}
    (offered : Offers children name signature) (subset : children ⊆ others) :
    Offers others name signature := by
  obtain ⟨parameters, body, types, member⟩ := offered
  exact ⟨parameters, body, types, subset member⟩

inductive WellTyped : Node → Prop where
  | module {children : List Node} :
      (∀ child ∈ children, child.IsItem (Offers children)) →
      WellTyped ⟨.module, none, none, children⟩

end Node

end ScalarC
