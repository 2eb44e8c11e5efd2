import ScalarC.Binary.Layout
import ScalarC.Node.Basic

/-!
The outline of a tree: one line per node in preorder, indented by twice its
depth, holding the tag, the value and the type.
-/

namespace ScalarC

namespace Binary64

/-- Doubles in an outline are positional from the fourth decimal place up to
sixteen digits, and positive exponents have no sign. -/
def outlineLayout : Layout := ⟨-4, 15, "", .up⟩

def outlineText (value : Binary64) : List Char :=
  if value.isFinite then (outlineLayout.text value).toList
  else if value.isNaN then "NaN".toList
  else if value.negative then "-inf".toList
  else "inf".toList

end Binary64

def NodeValue.outlineText : NodeValue → List Char
  | .name text => text.toList
  | .int value => Decimal.writeInt value
  | .float value => value.outlineText

namespace Node

mutual

def preorder (depth : Nat) : Node → List (Nat × Node)
  | ⟨tag, value, type, children⟩ =>
      (depth, ⟨tag, value, type, children⟩) :: preorderAll (depth + 1) children
termination_by structural node => node

def preorderAll (depth : Nat) : List Node → List (Nat × Node)
  | [] => []
  | node :: rest => preorder depth node ++ preorderAll depth rest
termination_by structural nodes => nodes

end

def outlineEntry (node : Node) : List Char :=
  let valuePart := match node.value with
    | some value => ' ' :: value.outlineText
    | none => []
  let typePart := match node.type with
    | some type => " : ".toList ++ type.name.toList
    | none => []
  node.tag.name.toList ++ valuePart ++ typePart

def outlineLine (depth : Nat) (node : Node) : List Char :=
  List.replicate (2 * depth) ' ' ++ node.outlineEntry ++ ['\n']

def outline (node : Node) : String :=
  String.ofList ((node.preorder 0).flatMap fun (depth, node) => outlineLine depth node)

end Node

end ScalarC
