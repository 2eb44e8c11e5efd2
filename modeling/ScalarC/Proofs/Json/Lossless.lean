import ScalarC.Proofs.Json.Blanks
import ScalarC.Proofs.Json.Shape

/-!
The JSON form of a tree says all that is in it: the tree is read back from the
compact text and from the indented one, which are the same but for blanks.
-/

namespace ScalarC

def Node.ofText? (text : String) : Option Node := (Json.ofText? text).bind ofJson?

theorem Node.ofText?_write {spacing : Json.Spacing} (blank : spacing.Blank) {node : Node}
    (finite : node.FloatsFinite) :
    ofText? (String.ofList (Json.write spacing 0 node.toJson [])) = some node := by
  rw [ofText?, Json.ofText?_write blank node.toJson_isFinite, Option.bind_some,
    ofJson?_toJson finite]

theorem Json.squeeze_pretty {json : Json} (finite : json.IsFinite) :
    squeeze false json.pretty.toList = json.compact.toList := by
  rw [pretty, compact, String.toList_ofList, String.toList_ofList,
    squeeze_write Spacing.indented_blank json 0 0 [] finite]
  rfl

/-- Nothing of a tree with finite doubles is lost in its JSON text, be it compact or indented, and
the indented text is the compact one with blanks outside of strings. All trees of accepted streams
are such trees, so there is no `null` in their JSON. -/
theorem json_loses_nothing :
    (∀ node : Node, node.FloatsFinite →
      Node.ofText? node.toJson.compact = some node ∧
      Node.ofText? node.toJson.pretty = some node ∧
      Json.squeeze false node.toJson.pretty.toList = node.toJson.compact.toList) ∧
    ∀ tokens module, parse tokens = .ok module →
      module.FloatsFinite ∧ module.toJson.NullFree := by
  constructor
  · intro node finite
    exact ⟨Node.ofText?_write Json.Spacing.compact_blank finite,
      Node.ofText?_write Json.Spacing.indented_blank finite,
      Json.squeeze_pretty node.toJson_isFinite⟩
  · intro tokens module parsed
    have finite := floatsFinite_of_parse parsed
    exact ⟨finite, Node.toJson_nullFree finite⟩

section Sample

/-- A double under a name that has to be escaped. -/
def Node.escaped : Node :=
  ⟨.globalVar, some (.name "\"ö\\\n"), some .f64,
    [⟨.number, some (.float (Binary64.ofInt 3)), some .f64, []⟩]⟩

def Program.scaled : List Token :=
  [⟨.keyword "float", ⟨1, 1⟩⟩, ⟨⟨.identifier, "f"⟩, ⟨1, 7⟩⟩, ⟨.operator "=", ⟨1, 9⟩⟩,
    ⟨⟨.number, "2.5e3"⟩, ⟨1, 11⟩⟩, ⟨.punctuation ";", ⟨1, 16⟩⟩, ⟨.endOfInput, ⟨1, 17⟩⟩]

theorem Program.scaled_json :
    Node.escaped.FloatsFinite ∧ Node.ofText? Node.escaped.toJson.compact = some Node.escaped ∧
      ∃ module, parse scaled = .ok module ∧ module.FloatsFinite ∧
        Node.ofText? module.toJson.pretty = some module := by
  have finite : Node.escaped.FloatsFinite := by
    have three : (Binary64.ofInt 3).isFinite = true := by decide +kernel
    simp [Node.escaped, three]
  have accepted : (parse scaled).toOption.isSome := by decide +kernel
  obtain ⟨module, parsed⟩ := Option.isSome_iff_exists.mp accepted
  have parsed := toOption_eq_some.mp parsed
  have kept := (json_loses_nothing.2 scaled module parsed).1
  exact ⟨finite, (json_loses_nothing.1 _ finite).1, module, parsed, kept,
    (json_loses_nothing.1 module kept).2.1⟩

end Sample

end ScalarC
