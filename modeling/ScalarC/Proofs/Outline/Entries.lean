import ScalarC.Proofs.Outline.Lines

/-!
What a line says. Its depth is counted off the spaces in front, and its fields
stand between single spaces; their number tells a value from a type. A name is a
word and starts with no digit, an integer has neither a fraction nor a power, and
a double has one of both, so values are never mistaken for one another.
-/

namespace ScalarC

open Decimal (Form)

namespace NodeValue

/-- Values whose text says what they are. -/
def Legible : NodeValue → Prop
  | .name text => Scanner.IsWord text.toList
  | .int _ => True
  | .float value => value.isFinite = true

variable {value other : NodeValue}

theorem word_plain {text : List Char} (isWord : Scanner.IsWord text) :
    ∀ c ∈ text, c ∉ ['\n', ' '] := by
  obtain ⟨first, rest, rfl, starts, continues⟩ := isWord
  intro c member blank
  have inside : Scanner.isWordCharacter c = true := by
    rcases List.mem_cons.mp member with rfl | member
    · exact Scanner.startsWord_isWordCharacter starts
    · exact continues c member
  simp only [List.mem_cons, List.not_mem_nil, or_false] at blank
  rcases blank with rfl | rfl <;> exact absurd inside (by decide)

theorem Legible.plain (legible : value.Legible) : ' ' ∉ value.outlineText := by
  cases value with
  | name text => exact fun member => word_plain legible _ member (by simp)
  | int | float => exact fun member => outlineText_plain (by simp) _ member (by simp)

theorem Legible.form (legible : value.Legible) (number : ∀ name, value ≠ .name name) :
    ∃ form : Form, form.WellFormed ∧ value.outlineText = form.text ∧
      value = if form.isFractional then .float form.double else .int form.integer := by
  cases value with
  | name text => exact absurd rfl (number text)
  | int value =>
      obtain ⟨form, wellFormed, whole, text, rfl⟩ := Decimal.writeInt_form value
      exact ⟨form, wellFormed, text, by simp [whole]⟩
  | float value =>
      obtain ⟨form, wellFormed, fractional, text, rfl⟩ := Binary64.outlineText_form legible
      exact ⟨form, wellFormed, text, by simp [fractional]⟩

theorem word_ne_number {word : List Char} (isWord : Scanner.IsWord word)
    (legible : value.Legible) (number : ∀ name, value ≠ .name name) :
    word ≠ value.outlineText := by
  rintro rfl
  obtain ⟨form, wellFormed, text, _⟩ := legible.form number
  obtain ⟨c, rest, same, starts, _⟩ := isWord
  obtain ⟨first, others, written, head⟩ := Form.text_head wellFormed
  rw [text, written] at same
  obtain ⟨rfl, _⟩ := List.cons.inj same
  rcases head with rfl | digit
  · exact absurd starts (by decide)
  · have noNumber := Scanner.startsWord_not_number starts []
    simp [Scanner.startsNumber, digit] at noNumber

theorem outlineText_injective (legible : value.Legible) (also : other.Legible)
    (same : value.outlineText = other.outlineText) : value = other := by
  by_cases named : ∃ name, value = .name name
  · obtain ⟨name, rfl⟩ := named
    cases other with
    | name text => exact congrArg NodeValue.name (String.toList_injective same)
    | int | float => exact absurd same (word_ne_number legible also (by simp))
  · have number : ∀ name, value ≠ .name name := fun name is => named ⟨name, is⟩
    by_cases alsoNamed : ∃ name, other = .name name
    · obtain ⟨name, rfl⟩ := alsoNamed
      exact absurd same.symm (word_ne_number also legible number)
    · have alsoNumber : ∀ name, other ≠ .name name := fun name is => alsoNamed ⟨name, is⟩
      obtain ⟨form, wellFormed, text, is⟩ := legible.form number
      obtain ⟨alsoForm, alsoWellFormed, alsoText, alsoIs⟩ := also.form alsoNumber
      -- One text has one form, so both are the number of that form.
      have forms : form = alsoForm := Form.text_injective wellFormed alsoWellFormed
        (by rw [← text, ← alsoText, same])
      rw [is, alsoIs, forms]

end NodeValue

namespace Node

def fields (node : Node) : List (List Char) :=
  node.tag.name.toList :: node.value.toList.map NodeValue.outlineText ++
    node.type.toList.flatMap fun type => [[':'], type.name.toList]

theorem outlineEntry_eq (node : Node) : node.outlineEntry = [' '].intercalate node.fields := by
  rcases node with ⟨tag, value, type, children⟩
  cases value <;> cases type <;> simp [outlineEntry, fields, List.intercalate, List.intersperse]

/-- Nodes whose entry says what they are. -/
def Legible (node : Node) : Prop := ∀ value, node.value = some value → value.Legible

theorem splitOn_outlineEntry {node : Node} (legible : node.Legible) :
    node.outlineEntry.splitOn ' ' = node.fields := by
  rw [outlineEntry_eq]
  refine List.splitOn_intercalate ' ' ?_ (by simp [fields])
  intro field member
  simp only [fields, List.cons_append, List.mem_cons, List.mem_append, List.mem_map,
    Option.mem_toList, List.mem_flatMap, List.not_mem_nil, or_false] at member
  rcases member with rfl | ⟨value, present, rfl⟩ | ⟨type, _, rfl | rfl⟩
  · exact fun member => node.tag.name_plain _ member (by simp)
  · exact (legible value present).plain
  · decide
  · exact fun member => type.name_plain _ member (by simp)

/-- An entry says the tag, the value and the type. -/
theorem outlineEntry_injective {node other : Node} (legible : node.Legible)
    (also : other.Legible) (same : node.outlineEntry = other.outlineEntry) :
    node.tag = other.tag ∧ node.value = other.value ∧ node.type = other.type := by
  have fields : node.fields = other.fields := by
    rw [← splitOn_outlineEntry legible, ← splitOn_outlineEntry also, same]
  rcases node with ⟨tag, value, type, children⟩
  rcases other with ⟨otherTag, otherValue, otherType, others⟩
  obtain ⟨tags, behind⟩ := List.cons.inj fields
  have values (inner otherInner : NodeValue) (present : value = some inner)
      (alsoPresent : otherValue = some otherInner)
      (text : inner.outlineText = otherInner.outlineText) : inner = otherInner :=
    NodeValue.outlineText_injective (legible inner present) (also otherInner alsoPresent) text
  have types (first second : DataType) :
      first.name.toList = second.name.toList ↔ first = second :=
    ⟨fun text => DataType.name_injective _ _ (String.toList_injective text), by rintro rfl; rfl⟩
  refine ⟨Tag.name_injective (String.toList_injective tags), ?_⟩
  -- The number of fields tells which of the two there are.
  cases value <;> cases otherValue <;> cases type <;> cases otherType <;>
    simp_all

end Node

end ScalarC
