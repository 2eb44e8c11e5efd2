import ScalarC.Proofs.Numbers.Forms
import ScalarC.Proofs.Outline.Preorder

/-!
The lines of an outline. No line has a line feed in it but the one that ends it,
if no name has one, so an outline is cut into the lines it was put together from.
-/

namespace ScalarC

open Decimal (Form)

theorem Binary64.outlineText_form {value : Binary64} (finite : value.isFinite = true) :
    ∃ form : Form, form.WellFormed ∧ form.isFractional = true ∧
      value.outlineText = form.text ∧ form.double = value := by
  obtain ⟨form, wellFormed, fractional, text, double⟩ :=
    outlineLayout.text_form (by simp [outlineLayout]) finite
  exact ⟨form, wellFormed, fractional, by simp [outlineText, finite, text], double⟩

theorem Decimal.Form.text_plain {form : Form} (wellFormed : form.WellFormed) :
    ∀ c ∈ form.text, c ∉ ['\n', ' '] := by
  intro c member
  rcases mem_text wellFormed member with digit | rfl | ⟨_, mark⟩
  · intro blank
    simp only [List.mem_cons, List.not_mem_nil, or_false] at blank
    rcases blank with rfl | rfl <;> exact absurd digit (by decide)
  · decide
  · simp only [List.mem_cons, List.not_mem_nil, or_false] at mark
    rcases mark with rfl | rfl | rfl <;> decide

theorem NodeValue.outlineText_plain {value : NodeValue} (number : ∀ name, value ≠ .name name) :
    ∀ c ∈ value.outlineText, c ∉ ['\n', ' '] := by
  cases value with
  | name text => exact absurd rfl (number text)
  | int value =>
      obtain ⟨form, wellFormed, _, text, _⟩ := Decimal.writeInt_form value
      rw [outlineText, text]
      exact form.text_plain wellFormed
  | float value =>
      by_cases finite : value.isFinite = true
      · obtain ⟨form, wellFormed, _, text, _⟩ := Binary64.outlineText_form finite
        rw [outlineText, text]
        exact form.text_plain wellFormed
      · rw [outlineText, Binary64.outlineText, if_neg finite]
        repeat' split
        all_goals simp

theorem Tag.name_plain (tag : Tag) : ∀ c ∈ tag.name.toList, c ∉ ['\n', ' '] := by
  have plain : tag.name.toList.all (fun c => c ∉ ['\n', ' ']) = true := by cases tag <;> decide
  simpa using plain

theorem DataType.name_plain (type : DataType) : ∀ c ∈ type.name.toList, c ∉ ['\n', ' '] := by
  have plain : type.name.toList.all (fun c => c ∉ ['\n', ' ']) = true := by cases type <;> decide
  simpa using plain

namespace Node

/-- What stands in a line in front of its line feed. -/
def indented (entry : Nat × Node) : List Char :=
  List.replicate (2 * entry.1) ' ' ++ entry.2.outlineEntry

theorem All.preorder {holds : Node → Prop} {node : Node} (all : node.All holds) (depth : Nat) :
    ∀ entry ∈ node.preorder depth, holds entry.2 := by
  induction node generalizing depth with
  | mk tag value type children ih =>
      obtain ⟨root, below⟩ := all_mk.mp all
      have inside (nodes : List Node) (subset : nodes ⊆ children) :
          ∀ entry ∈ preorderAll (depth + 1) nodes, holds entry.2 := by
        induction nodes with
        | nil => simp [preorderAll]
        | cons child nodes others =>
            obtain ⟨member, subset⟩ := List.cons_subset.mp subset
            intro entry among
            rw [preorderAll, List.mem_append] at among
            exact among.elim (ih child member (below child member) _ entry) (others subset entry)
      rw [Node.preorder]
      exact List.forall_mem_cons.mpr ⟨root, inside children (List.Subset.refl _)⟩

theorem newline_notMem_outlineEntry {node : Node}
    (names : ∀ name, node.name? = some name → '\n' ∉ name.toList) :
    '\n' ∉ node.outlineEntry := by
  have tag : '\n' ∉ node.tag.name.toList := fun member => node.tag.name_plain _ member (by simp)
  have value : ∀ value, node.value = some value → '\n' ∉ value.outlineText := by
    intro value present
    cases value with
    | name text => exact names text (name?_eq_some.mpr present)
    | int | float => exact fun member => NodeValue.outlineText_plain (by simp) _ member (by simp)
  have type : ∀ type, node.type = some type → '\n' ∉ type.name.toList :=
    fun type _ member => type.name_plain _ member (by simp)
  rcases node with ⟨kind, found, typed, children⟩
  cases found <;> cases typed <;> simp_all [outlineEntry]

theorem splitOn_lines {lines : List (List Char)} {mark : Char}
    (free : ∀ line ∈ lines, mark ∉ line) :
    (lines.flatMap (· ++ [mark])).splitOn mark = lines ++ [[]] := by
  have joined : lines.flatMap (· ++ [mark]) = [mark].intercalate (lines ++ [[]]) := by
    induction lines with
    | nil => simp
    | cons line lines ih =>
        have others := ih fun other member => free other (List.mem_cons_of_mem _ member)
        obtain ⟨next, rest, same⟩ := List.exists_cons_of_ne_nil (l := lines ++ [[]]) (by simp)
        rw [List.flatMap_cons, others, List.cons_append, same]
        simp [List.intercalate, List.intersperse]
  rw [joined]
  refine List.splitOn_intercalate mark ?_ (by simp)
  simpa [or_imp, forall_and] using free

theorem splitOn_outline {node : Node}
    (names : node.All fun part => ∀ name, part.name? = some name → '\n' ∉ name.toList) :
    node.outline.toList.splitOn '\n' = (node.preorder 0).map indented ++ [[]] := by
  have lines : node.outline.toList = ((node.preorder 0).map indented).flatMap (· ++ ['\n']) := by
    simp [outline, List.flatMap_map, outlineLine, indented]
  rw [lines]
  refine splitOn_lines (List.forall_mem_map.mpr fun entry member => ?_)
  have entryFree := newline_notMem_outlineEntry (names.preorder 0 entry member)
  simp [indented, entryFree]

end Node

end ScalarC
