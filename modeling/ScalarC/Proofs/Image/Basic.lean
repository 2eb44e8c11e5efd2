import Mathlib.Data.List.Forall2
import ScalarC.Proofs.Item.Basic

/-!
The tree a program stands for. `Depicts` relates what is written to nodes, one
construct at a time and without typing anything: a node may have any type but
where the program states one, and a number has the value of its spelling in the
type it got. The names declared so far in a function, all that a reading of a
name depends on, are carried along.
-/

namespace ScalarC

def BinaryOperator.tag : BinaryOperator → Tag
  | connective operator => operator.tag
  | comparison operator => operator.tag
  | arithmetic operator => operator.tag

section Names

variable (locals : List String) (name : String) (type : Option DataType)

/-- Reading a variable: one of the function, if it has one of that name. -/
def Node.reading : Node :=
  ⟨if name ∈ locals then .localGet else .globalGet, some (.name name), type, []⟩

def Node.writing (value : Node) : Node :=
  ⟨if name ∈ locals then .localSet else .globalSet, some (.name name), type, [value]⟩

end Names

/-- The nodes of phrases one by one. A phrase alone has one node. -/
inductive Phrase.Depicts (locals : List String) : List Phrase → List Node → Prop where
  | nil : Depicts locals [] []
  | cons {phrase : Phrase} {phrases : List Phrase} {node : Node} {nodes : List Node} :
      Depicts locals [phrase] [node] → Depicts locals phrases nodes →
      Depicts locals (phrase :: phrases) (node :: nodes)
  | number {phrase : Phrase} {literal : Literal} {type : DataType} {node : Node} :
      phrase.single? = some literal → literal.node? type = some node →
      Depicts locals [phrase] [node]
  | reference {name : Token} {type : Option DataType} :
      Depicts locals [.reference name] [.reading locals name.text type]
  | call {name closing : Token} {given : List Phrase} {nodes : List Node}
      {type : Option DataType} :
      Depicts locals given nodes →
      Depicts locals [.call name given closing] [⟨.call, some (.name name.text), type, nodes⟩]
  | group {opening : Token} {inner : Phrase} {node : Node} :
      Depicts locals [inner] [node] → Depicts locals [.group opening inner] [node]
  | negation {mark : Token} {inner : Phrase} {node : Node} {type : Option DataType} :
      inner.single? = none → Depicts locals [inner] [node] →
      Depicts locals [.negate mark inner] [⟨.neg, none, type, [node]⟩]
  | complement {mark : Token} {inner : Phrase} {node : Node} {type : Option DataType} :
      Depicts locals [inner] [node] →
      Depicts locals [.complement mark inner] [⟨.not, none, type, [node]⟩]
  | conversion {opening : Token} {target : DataType} {inner : Phrase} {node : Node} :
      inner.single?.filter (·.suits target) = none → Depicts locals [inner] [node] →
      node.type ≠ some target →
      Depicts locals [.cast opening target inner] [⟨.cast, none, some target, [node]⟩]
  | unchanged {opening : Token} {target : DataType} {inner : Phrase} {node : Node} :
      Depicts locals [inner] [node] → node.type = some target →
      Depicts locals [.cast opening target inner] [node]
  | binary {operator : BinaryOperator} {mark : Token} {left right : Phrase}
      {first second : Node} {type : Option DataType} :
      Depicts locals [left] [first] → Depicts locals [right] [second] →
      Depicts locals [.binary operator mark left right]
        [⟨operator.tag, none, type, [first, second]⟩]
  | assignment {name mark : Token} {value : Phrase} {node : Node} {type : Option DataType} :
      Depicts locals [value] [node] →
      Depicts locals [.assign name .plain mark value] [.writing locals name.text type node]
  | compound {operator : Arithmetic} {name mark : Token} {value : Phrase} {node : Node}
      {type : Option DataType} :
      Depicts locals [value] [node] →
      Depicts locals [.assign name (.compound operator) mark value]
        [.writing locals name.text type
          ⟨operator.tag, none, type, [.reading locals name.text type, node]⟩]

/-- The nodes of commands in a function, and the names declared behind them. -/
inductive Command.Depicts (function : String) :
    List String → List Command → List Node → List String → Prop where
  | nil {locals : List String} : Depicts function locals [] [] locals
  | cons {locals middle after : List String} {command : Command} {commands : List Command}
      {node : Node} {nodes : List Node} :
      Depicts function locals [command] [node] middle →
      Depicts function middle commands nodes after →
      Depicts function locals (command :: commands) (node :: nodes) after
  | declared {locals : List String} {type : DataType} {name : Token} :
      Depicts function locals [.declared type name]
        [⟨.localVar, some (.name name.text), some type, []⟩] (name.text :: locals)
  | initialized {locals : List String} {type : DataType} {name : Token} {value : Phrase}
      {node : Node} :
      Phrase.Depicts locals [value] [node] →
      Depicts function locals [.initialized type name value]
        [⟨.localVar, some (.name name.text), some type, [node]⟩] (name.text :: locals)
  | returned {locals : List String} :
      Depicts function locals [.returned] [⟨.returned, some (.name function), none, []⟩] locals
  | returnedValue {locals : List String} {value : Phrase} {node : Node}
      {type : Option DataType} :
      Phrase.Depicts locals [value] [node] →
      Depicts function locals [.returnedValue value]
        [⟨.returned, some (.name function), type, [node]⟩] locals
  | branch {locals after : List String} {test : Phrase} {chosen : Command}
      {condition node : Node} :
      Phrase.Depicts locals [test] [condition] →
      Depicts function locals [chosen] [node] after →
      Depicts function locals [.branch test chosen]
        [⟨.branch, none, none, [condition, chosen.body node]⟩] after
  | branchElse {locals middle after : List String} {test : Phrase}
      {chosen alternative : Command} {condition node other : Node} :
      Phrase.Depicts locals [test] [condition] →
      Depicts function locals [chosen] [node] middle →
      Depicts function middle [alternative] [other] after →
      Depicts function locals [.branchElse test chosen alternative]
        [⟨.branch, none, none, [condition, chosen.body node, alternative.body other]⟩] after
  | whileLoop {locals after : List String} {test : Phrase} {repeated : Command}
      {condition node : Node} :
      Phrase.Depicts locals [test] [condition] →
      Depicts function locals [repeated] [node] after →
      Depicts function locals [.whileLoop test repeated]
        [⟨.whileLoop, none, none, [condition, repeated.body node]⟩] after
  | doLoop {locals after : List String} {test : Phrase} {repeated : Command}
      {condition node : Node} :
      Depicts function locals [repeated] [node] after →
      Phrase.Depicts after [test] [condition] →
      Depicts function locals [.doLoop repeated test]
        [⟨.doLoop, none, none, [repeated.body node, condition]⟩] after
  | breakLoop {locals : List String} :
      Depicts function locals [.breakLoop] [⟨.breakLoop, none, none, []⟩] locals
  | continueLoop {locals : List String} :
      Depicts function locals [.continueLoop] [⟨.continueLoop, none, none, []⟩] locals
  | block {locals after : List String} {commands : List Command} {nodes : List Node} :
      Depicts function locals commands nodes after →
      Depicts function locals [.block commands] [⟨.block, none, none, nodes⟩] after
  | expression {locals : List String} {phrase : Phrase} {node : Node} :
      Phrase.Depicts locals [phrase] [node] →
      Depicts function locals [.expression phrase] [node.asStatement] locals

/-- The node of an item. Whether a global is constant leaves no trace in it. -/
inductive Item.Depicts : Item → Node → Prop where
  | unset {constant : Bool} {type : DataType} {name : Token} :
      Depicts (.global constant type name none)
        ⟨.globalVar, some (.name name.text), some type, []⟩
  | set {constant : Bool} {type : DataType} {name : Token} {literal : Literal} {node : Node} :
      literal.node? type = some node →
      Depicts (.global constant type name (some literal))
        ⟨.globalVar, some (.name name.text), some type, [node]⟩
  | function {returnType : Option DataType} {name : Token}
      {parameters : List (Token × DataType)} {body : List Command} {nodes : List Node}
      {after : List String} :
      Command.Depicts name.text (parameters.map fun parameter => parameter.1.text) body nodes
        after →
      Depicts (.function returnType name parameters body)
        ⟨.function, some (.name name.text), returnType,
          [⟨.parameters, none, none, parameters.map parameterNode⟩,
            ⟨.body, none, none, nodes⟩]⟩

def Program.Depicts (items : List Item) (module : Node) : Prop :=
  ∃ nodes, module = ⟨.module, none, none, nodes⟩ ∧ List.Forall₂ Item.Depicts items nodes

end ScalarC
