import ScalarC.Proofs.Json.Reading

/-!
Blanks outside of strings carry nothing: without them every form of a value is
the compact one. What stands in a string is left alone, a quote behind a
backslash included.
-/

namespace ScalarC.Json

open Decimal (Form)

/-- A text without the blanks outside of strings; the flag says whether it begins inside one. -/
def squeeze : Bool → List Char → List Char
  | _, [] => []
  | false, c :: rest => if isBlank c then squeeze false rest else c :: squeeze (c = '"') rest
  | true, '\\' :: c :: rest => '\\' :: c :: squeeze true rest
  | true, c :: rest => c :: squeeze (c ≠ '"') rest

variable {spacing : Spacing}

theorem squeeze_append {blanks : List Char} (blank : ∀ c ∈ blanks, isBlank c = true)
    (text : List Char) : squeeze false (blanks ++ text) = squeeze false text := by
  induction blanks with
  | nil => rfl
  | cons c blanks ih =>
      obtain ⟨first, others⟩ := List.forall_mem_cons.mp blank
      simp [squeeze, first, ih others]

theorem squeeze_mark {c : Char} (mark : isBlank c = false) (inside : c ≠ '"') (rest : List Char) :
    squeeze false (c :: rest) = c :: squeeze false rest := by
  simp [squeeze, mark, inside]

theorem squeeze_marks {marks : List Char} (plain : ∀ c ∈ marks, isBlank c = false ∧ c ≠ '"')
    (rest : List Char) : squeeze false (marks ++ rest) = marks ++ squeeze false rest := by
  induction marks with
  | nil => rfl
  | cons c marks ih =>
      obtain ⟨first, others⟩ := List.forall_mem_cons.mp plain
      simp [squeeze_mark first.1 first.2, ih others]

theorem squeeze_escapeChar (c : Char) (rest : List Char) :
    squeeze true (escapeChar c ++ rest) = escapeChar c ++ squeeze true rest := by
  unfold escapeChar
  repeat' split
  iterate 7
    · simp [squeeze]
  · next control =>
      have digits : ∀ code < 32, hexDigit (code / 16) ≠ '"' ∧ hexDigit (code / 16) ≠ '\\' ∧
          hexDigit (code % 16) ≠ '"' ∧ hexDigit (code % 16) ≠ '\\' := by decide
      have digits := digits c.toNat control
      simp [squeeze, digits]
  · simp_all [squeeze]

theorem squeeze_quote (text : String) (rest : List Char) :
    squeeze false (quote text ++ rest) = quote text ++ squeeze false rest := by
  have inside (characters : List Char) :
      squeeze true (characters.flatMap escapeChar ++ '"' :: rest) =
        characters.flatMap escapeChar ++ '"' :: squeeze false rest := by
    induction characters with
    | nil => simp [squeeze]
    | cons c characters ih => simp [squeeze_escapeChar, ih]
  simp [quote, squeeze, isBlank, inside]

theorem form_plain {form : Form} (wellFormed : form.WellFormed) :
    ∀ c ∈ form.text, isBlank c = false ∧ c ≠ '"' := by
  intro c member
  have starts (starts : c = '-' ∨ c.isDigit = true) : isBlank c = false ∧ c ≠ '"' := by
    have head := number_head starts
    exact ⟨head.1, by rintro rfl; simp at head⟩
  rcases Form.mem_text wellFormed member with digit | minus | ⟨_, mark⟩
  · exact starts (.inr digit)
  · exact starts (.inl minus)
  · simp only [List.mem_cons, List.not_mem_nil, or_false] at mark
    rcases mark with rfl | rfl | rfl <;> decide

mutual

/-- Without its blanks a value is in compact form, at whichever depths they are written. -/
theorem squeeze_write (blank : spacing.Blank) : ∀ (json : Json) (depth within : Nat)
    (rest : List Char), json.IsFinite → squeeze false (write spacing depth json rest) =
      write Spacing.compact within json (squeeze false rest)
  | .null, depth, within, rest, _ => squeeze_marks (by simp [isBlank]) rest
  | .int value, depth, within, rest, _ => by
      obtain ⟨form, wellFormed, _, text, _⟩ := Decimal.writeInt_form value
      simp only [write, text]
      exact squeeze_marks (form_plain wellFormed) rest
  | .float value, depth, within, rest, finite => by
      obtain ⟨form, wellFormed, _, text, _⟩ :=
        floatLayout.text_form (by simp [floatLayout]) (finite value rfl)
      simp only [write, text]
      exact squeeze_marks (form_plain wellFormed) rest
  | .string text, depth, within, rest, _ => squeeze_quote text rest
  | .array [], depth, within, rest, _ => by
      simp only [write]
      rw [squeeze_mark rfl (by decide), squeeze_mark rfl (by decide)]
  | .array (first :: others), depth, within, rest, finite => by
      obtain ⟨finite, finiteOthers⟩ := List.forall_mem_cons.mp (isFinite_array.mp finite)
      simp only [write]
      rw [squeeze_mark rfl (by decide), squeeze_append (blank.line _),
        squeeze_write blank first _ (within + 1) _ finite,
        squeeze_writeItems blank others _ (within + 1) _ finiteOthers,
        squeeze_append (blank.line _), squeeze_mark rfl (by decide)]
      rfl
  | .object [], depth, within, rest, _ => by
      simp only [write]
      rw [squeeze_mark rfl (by decide), squeeze_mark rfl (by decide)]
  | .object ((key, value) :: others), depth, within, rest, finite => by
      obtain ⟨finite, finiteOthers⟩ := List.forall_mem_cons.mp (isFinite_object.mp finite)
      simp only [write, List.append_assoc, List.cons_append]
      rw [squeeze_mark rfl (by decide), squeeze_append (blank.line _), squeeze_quote,
        squeeze_mark rfl (by decide), squeeze_append blank.colon,
        squeeze_write blank value _ (within + 1) _ finite,
        squeeze_writeMembers blank others _ (within + 1) _ finiteOthers,
        squeeze_append (blank.line _), squeeze_mark rfl (by decide)]
      rfl

theorem squeeze_writeItems (blank : spacing.Blank) : ∀ (items : List Json) (depth within : Nat)
    (rest : List Char), (∀ item ∈ items, item.IsFinite) →
      squeeze false (writeItems spacing depth items rest) =
        writeItems Spacing.compact within items (squeeze false rest)
  | [], depth, within, rest, _ => rfl
  | item :: others, depth, within, rest, finite => by
      obtain ⟨finite, finiteOthers⟩ := List.forall_mem_cons.mp finite
      simp only [writeItems]
      rw [squeeze_mark rfl (by decide), squeeze_append (blank.line _),
        squeeze_write blank item _ within _ finite,
        squeeze_writeItems blank others _ within _ finiteOthers]
      rfl

theorem squeeze_writeMembers (blank : spacing.Blank) : ∀ (members : List (String × Json))
    (depth within : Nat) (rest : List Char), (∀ member ∈ members, member.2.IsFinite) →
      squeeze false (writeMembers spacing depth members rest) =
        writeMembers Spacing.compact within members (squeeze false rest)
  | [], depth, within, rest, _ => rfl
  | (key, value) :: others, depth, within, rest, finite => by
      obtain ⟨finite, finiteOthers⟩ := List.forall_mem_cons.mp finite
      simp only [writeMembers, List.append_assoc, List.cons_append]
      rw [squeeze_mark rfl (by decide), squeeze_append (blank.line _), squeeze_quote,
        squeeze_mark rfl (by decide), squeeze_append blank.colon,
        squeeze_write blank value _ within _ finite,
        squeeze_writeMembers blank others _ within _ finiteOthers]
      rfl

end

end ScalarC.Json
