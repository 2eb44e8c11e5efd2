import ScalarC.Binary.Binary64
import ScalarC.DataType

/-!
The typed tree. A node has a tag, at most one name or number, at most one type,
and its children in source order. Equality of nodes compares doubles
arithmetically.
-/

namespace ScalarC

inductive Tag where
  | module
  | function
  | parameters
  | parameter
  | body
  | block
  | globalVar
  | localVar
  | returned
  | branch
  | whileLoop
  | doLoop
  | breakLoop
  | continueLoop
  | expression
  | number
  | globalGet
  | globalSet
  | localGet
  | localSet
  | call
  | cast
  | add
  | sub
  | mul
  | div
  | rem
  | eq
  | ne
  | lt
  | le
  | gt
  | ge
  | and
  | or
  | neg
  | not
  deriving DecidableEq

namespace Tag

def all : List Tag :=
  [module, function, parameters, parameter, body, block, globalVar, localVar, returned, branch,
    whileLoop, doLoop, breakLoop, continueLoop, expression, number, globalGet, globalSet,
    localGet, localSet, call, cast, add, sub, mul, div, rem, eq, ne, lt, le, gt, ge, and, or,
    neg, not]

def name : Tag → String
  | module => "module"
  | function => "function"
  | parameters => "parameters"
  | parameter => "parameter"
  | body => "body"
  | block => "block"
  | globalVar => "globalVar"
  | localVar => "localVar"
  | returned => "return"
  | branch => "if"
  | whileLoop => "while"
  | doLoop => "doWhile"
  | breakLoop => "break"
  | continueLoop => "continue"
  | expression => "expression"
  | number => "number"
  | globalGet => "globalGet"
  | globalSet => "globalSet"
  | localGet => "localGet"
  | localSet => "localSet"
  | call => "call"
  | cast => "cast"
  | add => "add"
  | sub => "sub"
  | mul => "mul"
  | div => "div"
  | rem => "rem"
  | eq => "eq"
  | ne => "ne"
  | lt => "lt"
  | le => "le"
  | gt => "gt"
  | ge => "ge"
  | and => "and"
  | or => "or"
  | neg => "neg"
  | not => "not"

def ofName? (name : String) : Option Tag := all.find? fun tag => tag.name = name

@[simp] theorem ofName?_name (tag : Tag) : ofName? tag.name = some tag := by
  cases tag <;> decide

theorem name_injective {tag other : Tag} (same : tag.name = other.name) : tag = other := by
  have found := congrArg ofName? same
  rw [ofName?_name, ofName?_name] at found
  exact Option.some.inj found

/-- Comparisons are typed `i32` whatever their operands are. -/
def isComparison : Tag → Bool
  | eq | ne | lt | le | gt | ge => true
  | _ => false

end Tag

inductive NodeValue where
  | name (text : String)
  | int (value : Int)
  | float (value : Binary64)
  deriving DecidableEq

def NodeValue.equals : NodeValue → NodeValue → Bool
  | .name first, .name second => first = second
  | .int first, .int second => first = second
  | .float first, .float second => first.equals second
  | _, _ => false

structure Node where
  tag : Tag
  value : Option NodeValue
  type : Option DataType
  children : List Node

namespace Node

def name? (node : Node) : Option String :=
  match node.value with
  | some (.name text) => some text
  | _ => none

mutual

def count : Node → Nat
  | ⟨_, _, _, children⟩ => countAll children + 1

def countAll : List Node → Nat
  | [] => 0
  | node :: rest => count node + countAll rest

end

mutual

/-- Whether two nodes are the same, doubles bit by bit. -/
def decideSame : (first second : Node) → Decidable (first = second)
  | ⟨tag, value, type, children⟩, ⟨otherTag, otherValue, otherType, others⟩ =>
      if root : tag = otherTag ∧ value = otherValue ∧ type = otherType then
        match decideSameAll children others with
        | isTrue same => isTrue (by rw [root.1, root.2.1, root.2.2, same])
        | isFalse differ => isFalse fun same => differ (Node.mk.inj same).2.2.2
      else isFalse fun same =>
        root ⟨(Node.mk.inj same).1, (Node.mk.inj same).2.1, (Node.mk.inj same).2.2.1⟩

def decideSameAll : (first second : List Node) → Decidable (first = second)
  | [], [] => isTrue rfl
  | [], _ :: _ => isFalse nofun
  | _ :: _, [] => isFalse nofun
  | node :: rest, other :: others =>
      match decideSame node other, decideSameAll rest others with
      | isTrue same, isTrue sameRest => isTrue (by rw [same, sameRest])
      | isFalse differ, _ => isFalse fun same => differ (List.cons.inj same).1
      | _, isFalse differ => isFalse fun same => differ (List.cons.inj same).2

end

instance : DecidableEq Node := decideSame

def valuesEqual : Option NodeValue → Option NodeValue → Bool
  | none, none => true
  | some first, some second => first.equals second
  | _, _ => false

mutual

def equals : Node → Node → Bool
  | ⟨tag, value, type, children⟩, other =>
      tag = other.tag && valuesEqual value other.value && type = other.type &&
        allEqual children other.children

def allEqual : List Node → List Node → Bool
  | [], [] => true
  | node :: rest, other :: others => equals node other && allEqual rest others
  | _, _ => false

end

end Node

end ScalarC
