import ScalarC.Node.Json
import ScalarC.Proofs.Contents
import ScalarC.Proofs.Json.Reading

/-!
A reader of the shape of trees. The members of an object may stand in any order
and each of them once; where there is no value or no type the node has none. The
kind of a value is seen from its JSON alone, so `null` is none.
-/

namespace ScalarC

def DataType.ofName? (name : String) : Option DataType :=
  [i32, i64, f32, f64].find? fun type => type.name = name

@[simp] theorem DataType.ofName?_name (type : DataType) : ofName? type.name = some type := by
  cases type <;> decide

def Json.text? : Json → Option String
  | .string text => some text
  | _ => none

def NodeValue.ofJson? : Json → Option NodeValue
  | .string text => some (.name text)
  | .int value => some (.int value)
  | .float value => some (.float value)
  | _ => none

namespace Node

structure Members where
  tag : Option Tag
  value : Option NodeValue
  type : Option DataType
  children : Option (List Node)

def once {α : Type} (before found : Option α) : Option (Option α) :=
  match before, found with
  | none, some value => some (some value)
  | _, _ => none

mutual

def ofJson? : Json → Option Node
  | .object members => do
      let read ← members? members
      return ⟨← read.tag, read.value, read.type, ← read.children⟩
  | _ => none

def members? : List (String × Json) → Option Members
  | [] => some ⟨none, none, none, none⟩
  | (key, json) :: others => do
      let read ← members? others
      match key with
      | "type" => return { read with tag := ← once read.tag (json.text?.bind Tag.ofName?) }
      | "value" => return { read with value := ← once read.value (NodeValue.ofJson? json) }
      | "dataType" =>
          return { read with type := ← once read.type (json.text?.bind DataType.ofName?) }
      | "nodes" => return { read with children := ← once read.children (children? json) }
      | _ => none

def children? : Json → Option (List Node)
  | .array items => nodes? items
  | _ => none

def nodes? : List Json → Option (List Node)
  | [] => some []
  | item :: others => do
      let node ← ofJson? item
      let rest ← nodes? others
      return node :: rest

end

theorem toJsonAll_eq_map (nodes : List Node) : toJsonAll nodes = nodes.map toJson := by
  induction nodes with
  | nil => rfl
  | cons node nodes ih => rw [toJsonAll, ih, List.map_cons]

theorem nodes?_map {nodes : List Node} (each : ∀ node ∈ nodes, ofJson? node.toJson = some node) :
    nodes? (nodes.map toJson) = some nodes := by
  induction nodes with
  | nil => rfl
  | cons node nodes ih =>
      obtain ⟨first, others⟩ := List.forall_mem_cons.mp each
      simp [nodes?, first, ih others]

theorem ofJson?_value {value : NodeValue}
    (finite : ∀ double, value = .float double → double.isFinite = true) :
    NodeValue.ofJson? value.toJson = some value := by
  cases value with
  | name => rfl
  | int => rfl
  | float double => simp [NodeValue.toJson, finite double rfl, NodeValue.ofJson?]

/-- A tree with finite doubles is read back from its JSON form. -/
theorem ofJson?_toJson {node : Node} (finite : node.FloatsFinite) :
    ofJson? node.toJson = some node := by
  induction node with
  | mk tag value type children ih =>
      obtain ⟨valueFinite, below⟩ := floatsFinite_mk.mp finite
      have nodes : children? (.array (toJsonAll children)) = some children := by
        rw [toJsonAll_eq_map, children?]
        exact nodes?_map fun child member => ih child member (below child member)
      have valued (inner : NodeValue) (present : value = some inner) :
          NodeValue.ofJson? inner.toJson = some inner :=
        ofJson?_value fun double same => valueFinite double (same ▸ present)
      cases value with
      | none => cases type <;> simp [toJson, ofJson?, members?, once, nodes, Json.text?]
      | some inner =>
          have read := valued inner rfl
          cases type <;> simp [toJson, ofJson?, members?, once, nodes, Json.text?, read]

theorem valueJson_all {holds : Json → Prop} {value : NodeValue} :
    value.toJson.All holds ↔ holds value.toJson := by
  cases value with
  | name | int => exact Iff.rfl
  | float double =>
      by_cases finite : double.isFinite = true <;> simp [NodeValue.toJson, finite, Json.All]

theorem toJson_all {holds : Json → Prop} (objects : ∀ members, holds (.object members))
    (arrays : ∀ items, holds (.array items)) (strings : ∀ text, holds (.string text)) {node : Node}
    (values : node.All fun part => ∀ value, part.value = some value → holds value.toJson) :
    node.toJson.All holds := by
  induction node with
  | mk tag value type children ih =>
      obtain ⟨own, below⟩ := all_mk.mp values
      have nodes : ∀ child ∈ children, child.toJson.All holds :=
        fun child member => ih child member (below child member)
      have leaf : ∀ member ∈ value.toList.map fun value => ("value", value.toJson),
          member.2.All holds := by
        simpa [valueJson_all] using own
      have typed : ∀ member ∈ type.toList.map fun type => ("dataType", Json.string type.name),
          member.2.All holds := by
        simp [Json.All, strings]
      have first : Json.All holds (.string tag.name) := strings tag.name
      have list : Json.All holds (.array (children.map toJson)) :=
        ⟨arrays _, Json.allItems_iff.mpr (List.forall_mem_map.mpr nodes)⟩
      refine ⟨objects _, Json.allMembers_iff.mpr fun member inside => ?_⟩
      simp only [toJsonAll_eq_map, List.cons_append, List.mem_cons, List.mem_append,
        List.not_mem_nil, or_false] at inside
      rcases inside with rfl | (inside | inside) | rfl
      · exact first
      · exact leaf member inside
      · exact typed member inside
      · exact list

theorem toJson_isFinite (node : Node) : node.toJson.IsFinite := by
  refine toJson_all (by simp) (by simp) (by simp) (all_of_forall (fun part => ?_) node)
  rintro value _ double same
  cases value with
  | name | int => cases same
  | float value => by_cases finite : value.isFinite = true <;> simp_all [NodeValue.toJson]

end Node

def Json.NullFree (json : Json) : Prop := json.All (· ≠ .null)

namespace Node

theorem toJson_nullFree {node : Node} (finite : node.FloatsFinite) : node.toJson.NullFree := by
  refine toJson_all (by simp) (by simp) (by simp) (finite.mono fun part floats => ?_)
  rintro value present
  cases value with
  | name | int => simp [NodeValue.toJson]
  | float double => simp [NodeValue.toJson, floats double present]

end Node

end ScalarC
