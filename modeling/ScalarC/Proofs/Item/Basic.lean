import ScalarC.Parsing.Declaration
import ScalarC.Proofs.Command.Basic

/-!
Items: the declarations of a module as they are written. `Elaborates` types them
in order, each in the scope of those before it. The parameters and the body of a
function share one scope, which is left behind it.
-/

namespace ScalarC

inductive Item where
  | global (constant : Bool) (type : DataType) (name : Token) (value : Option Literal)
  | function (returnType : Option DataType) (name : Token) (parameters : List (Token × DataType))
      (body : List Command)

namespace Item

def name : Item → Token
  | global _ _ name _ | function _ name _ _ => name

inductive Declares : Scope → List (Token × DataType) → Scope → Prop where
  | nil {scope : Scope} : Declares scope [] scope
  | cons {scope middle after : Scope} {name : Token} {type : DataType} {entry : Variable}
      {parameters : List (Token × DataType)} :
      scope.declareParameter name.text type name.location = .ok (entry, middle) →
      Declares middle parameters after →
      Declares scope ((name, type) :: parameters) after

theorem Declares.module_same {scope after : Scope} {parameters : List (Token × DataType)}
    (declares : Declares scope parameters after) :
    after.globals = scope.globals ∧ after.functions = scope.functions := by
  induction declares with
  | nil => exact ⟨rfl, rfl⟩
  | cons entered _ ih =>
      obtain ⟨_, _, _, _, rfl⟩ := Scope.declareInFunction_eq_ok.mp entered
      exact ih

def parameterNode (parameter : Token × DataType) : Node :=
  ⟨.parameter, some (.name parameter.1.text), some parameter.2, []⟩

/-- The node of an item and the scope behind it. A constant has to have a value. -/
inductive Elaborates : Scope → Item → Node → Scope → Prop where
  | unset {scope after : Scope} {type : DataType} {name : Token} {entry : Variable} :
      scope.declareGlobal name.text type false name.location = .ok (entry, after) →
      Elaborates scope (.global false type name none)
        ⟨.globalVar, some (.name name.text), some type, []⟩ after
  | set {scope after : Scope} {constant : Bool} {type : DataType} {name : Token}
      {literal : Literal} {node : Node} {entry : Variable} :
      scope.declareGlobal name.text type constant name.location = .ok (entry, after) →
      literal.node? type = some node →
      Elaborates scope (.global constant type name (some literal))
        ⟨.globalVar, some (.name name.text), some type, [node]⟩ after
  | function {scope entered declared after : Scope} {returnType : Option DataType} {name : Token}
      {parameters : List (Token × DataType)} {body : List Command} {nodes : List Node} :
      Declares scope.enterFunction parameters entered →
      entered.declareFunction name.text ⟨returnType, parameters.map Prod.snd⟩ name.location =
        .ok declared →
      Command.Elaborates ⟨name.text, returnType⟩ 0 declared body nodes after →
      Elaborates scope (.function returnType name parameters body)
        ⟨.function, some (.name name.text), returnType,
          [⟨.parameters, none, none, parameters.map parameterNode⟩,
            ⟨.body, none, none, nodes⟩]⟩ after.exitFunction

end Item

inductive Program.Elaborates : Scope → List Item → List Node → Scope → Prop where
  | nil {scope : Scope} : Elaborates scope [] [] scope
  | cons {scope middle after : Scope} {item : Item} {items : List Item} {node : Node}
      {nodes : List Node} :
      item.Elaborates scope node middle → Elaborates middle items nodes after →
      Elaborates scope (item :: items) (node :: nodes) after

/-- Each node of a module is that of an item, in the scope of those before it. -/
theorem Program.Elaborates.item_of_mem {scope after : Scope} {items : List Item}
    {nodes : List Node} (elaborates : Elaborates scope items nodes after) {node : Node}
    (member : node ∈ nodes) : ∃ item before behind, Item.Elaborates before item node behind := by
  induction elaborates with
  | nil => cases member
  | cons first _ ih =>
      rcases List.mem_cons.mp member with rfl | member
      · exact ⟨_, _, _, first⟩
      · exact ih member

end ScalarC
