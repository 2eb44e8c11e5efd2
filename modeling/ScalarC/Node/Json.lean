import ScalarC.Json
import ScalarC.Node.Basic

/-!
The JSON form of a tree: an object with the tag, the value and the type where a
node has them, and the list of its children. A double that is not finite has no
JSON number and becomes `null`.
-/

namespace ScalarC

def NodeValue.toJson : NodeValue → Json
  | .name text => .string text
  | .int value => .int value
  | .float value => if value.isFinite then .float value else .null

namespace Node

mutual

def toJson : Node → Json
  | ⟨tag, value, type, children⟩ =>
      let valueMember := value.toList.map fun value => ("value", value.toJson)
      let typeMember := type.toList.map fun type => ("dataType", Json.string type.name)
      .object (("type", .string tag.name) :: valueMember ++ typeMember ++
        [("nodes", .array (toJsonAll children))])

def toJsonAll : List Node → List Json
  | [] => []
  | node :: rest => toJson node :: toJsonAll rest

end

end Node

end ScalarC
