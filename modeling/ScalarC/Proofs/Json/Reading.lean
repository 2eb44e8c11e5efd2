import ScalarC.Proofs.Json.Reader

/-!
The reader gives back what the writer wrote, whichever blanks stand between the
parts: strings character by character, numbers by their forms, and values by
induction over them.
-/

namespace ScalarC.Json

/-! Strings. -/

theorem unit?_control : ∀ code < 32, Literal.hexValue? 0
    ['0', '0', hexDigit (code / 16), hexDigit (code % 16)] = some code := by
  decide

theorem character?_escapeChar (c : Char) (rest : List Char) :
    character? (escapeChar c ++ rest) = some (c, rest) := by
  unfold escapeChar
  repeat' split
  iterate 7
    · subst_vars
      rfl
  · next control =>
      have basic : ¬ (0xD800 ≤ c.toNat ∧ c.toNat < 0xDC00) := by omega
      have valid : c.toNat.isValidChar := c.valid
      simp [character?, escape?, unit?, unit?_control c.toNat control, basic, valid]
  · next plain =>
      simp_all [character?]

theorem head?_escapeChar (c : Char) (rest : List Char) :
    (escapeChar c ++ rest).head? ≠ some '"' := by
  unfold escapeChar
  repeat' split
  all_goals simp_all

theorem length_escapeChar (c : Char) : 0 < (escapeChar c).length := by
  unfold escapeChar
  repeat' split
  all_goals simp

theorem characters?_flatMap (characters rest : List Char) {bound : Nat}
    (enough : characters.length < bound) :
    characters? bound (characters.flatMap escapeChar ++ '"' :: rest) = some (characters, rest) := by
  induction characters generalizing bound with
  | nil =>
      obtain ⟨bound, rfl⟩ := Nat.exists_eq_succ_of_ne_zero (Nat.ne_of_gt enough)
      simp [characters?]
  | cons c characters ih =>
      obtain ⟨bound, rfl⟩ := Nat.exists_eq_succ_of_ne_zero (Nat.ne_zero_of_lt enough)
      have others := ih (Nat.lt_of_succ_lt_succ enough)
      rw [List.flatMap_cons, List.append_assoc, characters?, if_neg (head?_escapeChar c _),
        character?_escapeChar]
      simp [others]

theorem length_le_flatMap (characters : List Char) :
    characters.length ≤ (characters.flatMap escapeChar).length := by
  induction characters with
  | nil => simp
  | cons c characters ih =>
      have first := length_escapeChar c
      simp only [List.length_cons, List.flatMap_cons, List.length_append]
      omega

theorem string?_quote (text : String) (rest : List Char) :
    string? (quote text ++ rest) = some (text, rest) := by
  have enough : text.toList.length <
      (text.toList.flatMap escapeChar ++ '"' :: rest).length := by
    have length := length_le_flatMap text.toList
    simp only [List.length_append, List.length_cons]
    omega
  have opened : quote text ++ rest =
      '"' :: (text.toList.flatMap escapeChar ++ '"' :: rest) := by simp [quote]
  simp only [opened, string?, characters?_flatMap _ _ enough]
  simp

/-! Blanks. -/

section Blanks

variable {c : Char} {blanks text rest : List Char}

/-- Nothing but blanks stands between the parts of a form. -/
structure Spacing.Blank (spacing : Spacing) : Prop where
  line : ∀ depth, ∀ c ∈ spacing.line depth, isBlank c = true
  colon : ∀ c ∈ spacing.colon, isBlank c = true

theorem Spacing.compact_blank : Spacing.compact.Blank := ⟨by simp [compact], by simp [compact]⟩

theorem Spacing.indented_blank : Spacing.indented.Blank := by
  refine ⟨fun depth c member => ?_, by simp [indented, isBlank]⟩
  simp only [indented, List.mem_cons, List.mem_replicate] at member
  rcases member with rfl | ⟨_, rfl⟩ <;> rfl

theorem skipBlanks_append (blank : ∀ c ∈ blanks, isBlank c = true) (text : List Char) :
    skipBlanks (blanks ++ text) = skipBlanks text :=
  List.dropWhile_append_of_pos blank

theorem skipBlanks_cons (mark : isBlank c = false) : skipBlanks (c :: rest) = c :: rest := by
  simp [skipBlanks, mark]

theorem value?_append (blank : ∀ c ∈ blanks, isBlank c = true) (bound : Nat) (text : List Char) :
    value? bound (blanks ++ text) = value? bound text := by
  cases bound with
  | zero => rfl
  | succ bound => simp [value?, skipBlanks_append blank]

end Blanks

/-! Values. -/

mutual

def All (holds : Json → Prop) : Json → Prop
  | .array items => holds (.array items) ∧ AllItems holds items
  | .object members => holds (.object members) ∧ AllMembers holds members
  | json => holds json

def AllItems (holds : Json → Prop) : List Json → Prop
  | [] => True
  | item :: others => All holds item ∧ AllItems holds others

def AllMembers (holds : Json → Prop) : List (String × Json) → Prop
  | [] => True
  | (_, value) :: others => All holds value ∧ AllMembers holds others

end

theorem allItems_iff {holds : Json → Prop} {items : List Json} :
    AllItems holds items ↔ ∀ item ∈ items, item.All holds := by
  induction items with
  | nil => simp [AllItems]
  | cons item others ih => simp [AllItems, ih]

theorem allMembers_iff {holds : Json → Prop} {members : List (String × Json)} :
    AllMembers holds members ↔ ∀ member ∈ members, member.2.All holds := by
  induction members with
  | nil => simp [AllMembers]
  | cons member others ih => simp [AllMembers, ih]

def IsFinite (json : Json) : Prop :=
  json.All fun part => ∀ double, part = .float double → double.isFinite = true

@[simp] theorem isFinite_array {items : List Json} :
    (Json.array items).IsFinite ↔ ∀ item ∈ items, item.IsFinite := by
  simp [IsFinite, All, allItems_iff]

@[simp] theorem isFinite_object {members : List (String × Json)} :
    (Json.object members).IsFinite ↔ ∀ member ∈ members, member.2.IsFinite := by
  simp [IsFinite, All, allMembers_iff]

open Decimal (Form)

variable {spacing : Spacing}

/-! Numbers. -/

theorem number_head {c : Char} (starts : c = '-' ∨ c.isDigit = true) :
    isBlank c = false ∧ c ∉ ['[', ']', '\x7b', '\x7d', '"', 'n', ','] := by
  rcases starts with rfl | digit
  · decide
  · constructor
    · simp only [isBlank, Bool.or_eq_false_iff, decide_eq_false_iff_not]
      refine ⟨⟨⟨?_, ?_⟩, ?_⟩, ?_⟩ <;> rintro rfl <;> exact absurd digit (by decide)
    · intro member
      simp only [List.mem_cons, List.not_mem_nil, or_false] at member
      rcases member with rfl | rfl | rfl | rfl | rfl | rfl | rfl <;>
        exact absurd digit (by decide)

theorem value?_form {form : Form} (wellFormed : form.WellFormed) {rest : List Char}
    (stops : Form.Stops rest) {number : Json} (is : ofForm? form = some number) (bound : Nat) :
    value? (bound + 1) (form.text ++ rest) = some (number, rest) := by
  have read : number? (form.text ++ rest) = some (number, rest) := by
    simp [number?, Form.read?_text wellFormed stops, is]
  obtain ⟨c, others, same, starts⟩ := Form.text_head wellFormed
  obtain ⟨mark, other⟩ := number_head starts
  rw [same, List.cons_append] at read ⊢
  simp only [value?, skipBlanks_cons mark]
  split <;> simp_all

theorem value?_writeInt (value : Int) {rest : List Char} (stops : Form.Stops rest) (bound : Nat) :
    value? (bound + 1) (Decimal.writeInt value ++ rest) = some (.int value, rest) := by
  obtain ⟨form, wellFormed, whole, text, integer⟩ := Decimal.writeInt_form value
  rw [text]
  exact value?_form wellFormed stops (by simp [ofForm?, whole, integer]) bound

theorem value?_double {value : Binary64} (finite : value.isFinite = true) {rest : List Char}
    (stops : Form.Stops rest) (bound : Nat) :
    value? (bound + 1) ((floatLayout.text value).toList ++ rest) = some (.float value, rest) := by
  obtain ⟨form, wellFormed, fractional, text, double⟩ :=
    floatLayout.text_form (by simp [floatLayout]) finite
  rw [text]
  exact value?_form wellFormed stops (by simp [ofForm?, fractional, double, finite]) bound

/-! Lists. -/

theorem stops_of_mark {c : Char} (mark : isBlank c = true ∨ c ∈ [']', '\x7d', ','])
    (rest : List Char) : Form.Stops (c :: rest) := by
  rintro _ ⟨⟩
  simp only [isBlank, Bool.or_eq_true, decide_eq_true_eq, List.mem_cons, List.not_mem_nil,
    or_false] at mark
  rcases mark with (((rfl | rfl) | rfl) | rfl) | rfl | rfl | rfl <;> decide

/-- The end of a list: a closing bracket, which may have blanks in front of it. -/
def Closes (close : Char) (tail rest : List Char) : Prop :=
  close ∈ [']', '\x7d'] ∧ Form.Stops tail ∧ skipBlanks tail = close :: rest

theorem closes_append {blanks : List Char} (blank : ∀ c ∈ blanks, isBlank c = true) (close : Char)
    (closing : close ∈ [']', '\x7d']) (rest : List Char) :
    Closes close (blanks ++ close :: rest) rest := by
  have mark : isBlank close = false := by
    simp only [List.mem_cons, List.not_mem_nil, or_false] at closing
    rcases closing with rfl | rfl <;> rfl
  refine ⟨closing, ?_, ?_⟩
  · cases blanks with
    | nil => exact stops_of_mark (.inr (by simp_all; tauto)) rest
    | cons c others => exact stops_of_mark (.inl (blank c (by simp))) _
  · rw [skipBlanks_append blank, skipBlanks_cons mark]

theorem Closes.length_pos {close : Char} {tail rest : List Char} (closes : Closes close tail rest) :
    0 < tail.length := by
  cases tail with
  | nil => cases closes.2.2
  | cons => exact Nat.succ_pos _

theorem stops_writeItems (spacing : Spacing) {tail : List Char} (stops : Form.Stops tail)
    (depth : Nat) (items : List Json) : Form.Stops (writeItems spacing depth items tail) := by
  cases items with
  | nil => exact stops
  | cons item others => exact stops_of_mark (.inr (by simp)) _

theorem stops_writeMembers (spacing : Spacing) {tail : List Char} (stops : Form.Stops tail)
    (depth : Nat) (members : List (String × Json)) :
    Form.Stops (writeMembers spacing depth members tail) := by
  cases members with
  | nil => exact stops
  | cons member others => exact stops_of_mark (.inr (by simp)) _

theorem write_head (spacing : Spacing) {json : Json} (finite : json.IsFinite) (depth : Nat)
    (rest : List Char) :
    ∃ c others, write spacing depth json rest = c :: others ∧ isBlank c = false ∧ c ≠ ']' := by
  cases json with
  | null => exact ⟨'n', _, rfl, rfl, by decide⟩
  | int value =>
      obtain ⟨form, wellFormed, _, text, _⟩ := Decimal.writeInt_form value
      obtain ⟨c, others, same, starts⟩ := Form.text_head wellFormed
      obtain ⟨mark, other⟩ := number_head starts
      exact ⟨c, others ++ rest, by rw [write, text, same, List.cons_append], mark,
        by rintro rfl; simp at other⟩
  | float value =>
      obtain ⟨form, wellFormed, _, text, _⟩ :=
        floatLayout.text_form (by simp [floatLayout]) (finite value rfl)
      obtain ⟨c, others, same, starts⟩ := Form.text_head wellFormed
      obtain ⟨mark, other⟩ := number_head starts
      exact ⟨c, others ++ rest, by rw [write, text, same, List.cons_append], mark,
        by rintro rfl; simp at other⟩
  | string text => exact ⟨'"', _, rfl, rfl, by decide⟩
  | array items => cases items <;> exact ⟨'[', _, rfl, rfl, by decide⟩
  | object members =>
      match members with
      | [] => exact ⟨'\x7b', _, rfl, rfl, by decide⟩
      | (key, value) :: others => exact ⟨'\x7b', _, rfl, rfl, by decide⟩

section Lists

variable {α : Type} {close : Char} {element? : Reader α} {element : α} {others : List α}
  {text behind rest : List Char} {bound : Nat}

theorem further?_close (closes : Closes close text rest) :
    further? close element? (bound + 1) text = some ([], rest) := by
  simp [further?, closes.2.2]

theorem further?_comma (closing : close ∈ [']', '\x7d'])
    (first : element? text = some (element, behind))
    (further : further? close element? bound behind = some (others, rest)) :
    further? close element? (bound + 1) (',' :: text) = some (element :: others, rest) := by
  have differs : ',' ≠ close := by
    rintro rfl
    exact absurd closing (by decide)
  have mark : skipBlanks (',' :: text) = ',' :: text := skipBlanks_cons rfl
  simp [further?, mark, differs, first, further]

theorem elements?_close (mark : isBlank close = false) :
    elements? close element? bound (close :: rest) = some ([], rest) := by
  simp [elements?, skipBlanks_cons mark]

theorem elements?_first (starts : ∃ c opened, skipBlanks text = c :: opened ∧ c ≠ close)
    (first : element? text = some (element, behind))
    (further : further? close element? bound behind = some (others, rest)) :
    elements? close element? bound text = some (element :: others, rest) := by
  obtain ⟨c, opened, starts, differs⟩ := starts
  simp [elements?, starts, differs, first, further]

end Lists

theorem member?_quote {blanks colon : List Char} (blank : ∀ c ∈ blanks, isBlank c = true)
    (blankColon : ∀ c ∈ colon, isBlank c = true) (key : String) {value : Json} {bound : Nat}
    {text rest : List Char} (read : value? bound text = some (value, rest)) :
    member? (value? bound) (blanks ++ (quote key ++ ':' :: (colon ++ text))) =
      some ((key, value), rest) := by
  have opened : skipBlanks (quote key ++ ':' :: (colon ++ text)) =
      quote key ++ ':' :: (colon ++ text) := skipBlanks_cons rfl
  have separated : skipBlanks (':' :: (colon ++ text)) = ':' :: (colon ++ text) :=
    skipBlanks_cons rfl
  simp [member?, skipBlanks_append blank, opened, string?_quote, separated,
    value?_append blankColon, read]

/-! What is written is no shorter than what follows it, so its length bounds the values in it. -/

mutual

theorem length_write (spacing : Spacing) : ∀ (json : Json) (depth : Nat) (rest : List Char),
    rest.length ≤ (write spacing depth json rest).length
  | .null, depth, rest => by simp [write, Nat.add_assoc]
  | .int value, depth, rest => by simp [write]
  | .float value, depth, rest => by simp [write]
  | .string text, depth, rest => by simp [write]
  | .array [], depth, rest => by simp [write, Nat.add_assoc]
  | .array (first :: others), depth, rest => by
      have items := length_writeItems spacing others (depth + 1) (spacing.line depth ++ ']' :: rest)
      have inner := length_write spacing first (depth + 1)
        (writeItems spacing (depth + 1) others (spacing.line depth ++ ']' :: rest))
      simp only [write, List.length_cons, List.length_append] at items inner ⊢
      omega
  | .object [], depth, rest => by simp [write, Nat.add_assoc]
  | .object ((key, value) :: others), depth, rest => by
      have members := length_writeMembers spacing others (depth + 1)
        (spacing.line depth ++ '\x7d' :: rest)
      have inner := length_write spacing value (depth + 1)
        (writeMembers spacing (depth + 1) others (spacing.line depth ++ '\x7d' :: rest))
      simp only [write, List.length_cons, List.length_append] at members inner ⊢
      omega

theorem length_writeItems (spacing : Spacing) : ∀ (items : List Json) (depth : Nat)
    (rest : List Char),
    rest.length ≤ (writeItems spacing depth items rest).length
  | [], depth, rest => by simp [writeItems]
  | item :: others, depth, rest => by
      have items := length_writeItems spacing others depth rest
      have inner := length_write spacing item depth (writeItems spacing depth others rest)
      simp only [writeItems, List.length_cons, List.length_append]
      omega

theorem length_writeMembers (spacing : Spacing) : ∀ (members : List (String × Json)) (depth : Nat)
    (rest : List Char),
    rest.length ≤ (writeMembers spacing depth members rest).length
  | [], depth, rest => by simp [writeMembers]
  | (key, value) :: others, depth, rest => by
      have members := length_writeMembers spacing others depth rest
      have inner := length_write spacing value depth (writeMembers spacing depth others rest)
      simp only [writeMembers, List.length_cons, List.length_append]
      omega

end

section Values

variable {bound : Nat} {text rest : List Char}

theorem value?_array {items : List Json}
    (read : elements? ']' (value? bound) bound text = some (items, rest)) :
    value? (bound + 1) ('[' :: text) = some (.array items, rest) := by
  have mark : skipBlanks ('[' :: text) = '[' :: text := skipBlanks_cons rfl
  simp [value?, mark, read]

theorem value?_object {members : List (String × Json)}
    (read : elements? '\x7d' (member? (value? bound)) bound text = some (members, rest)) :
    value? (bound + 1) ('\x7b' :: text) = some (.object members, rest) := by
  have mark : skipBlanks ('\x7b' :: text) = '\x7b' :: text := skipBlanks_cons rfl
  simp [value?, mark, read]

theorem value?_quote (text : String) :
    value? (bound + 1) (quote text ++ rest) = some (.string text, rest) := by
  have read := string?_quote text rest
  simp only [quote, List.cons_append] at read ⊢
  rw [value?, skipBlanks_cons rfl]
  simp only [read]
  rfl

end Values

/-! Reading what is written. -/

mutual

theorem value?_write (blank : spacing.Blank) : ∀ (json : Json) (depth : Nat) (rest : List Char)
    (bound : Nat), json.IsFinite → Form.Stops rest →
      (write spacing depth json rest).length ≤ bound →
      value? bound (write spacing depth json rest) = some (json, rest)
  | json, depth, rest, 0, finite, _, enough => by
      obtain ⟨c, others, same, _⟩ := write_head spacing finite depth rest
      simp [same] at enough
  | .null, depth, rest, bound + 1, _, _, _ => rfl
  | .int value, depth, rest, bound + 1, _, stops, _ => value?_writeInt value stops bound
  | .float value, depth, rest, bound + 1, finite, stops, _ =>
      value?_double (finite value rfl) stops bound
  | .string text, depth, rest, bound + 1, _, _, _ => value?_quote text
  | .array [], depth, rest, bound + 1, _, _, _ => value?_array (elements?_close rfl)
  | .array (first :: others), depth, rest, bound + 1, finite, stops, enough => by
      obtain ⟨finite, finiteOthers⟩ := List.forall_mem_cons.mp (isFinite_array.mp finite)
      have closes := closes_append (blank.line depth) ']' (by simp) rest
      simp only [write, List.length_cons, List.length_append] at enough
      have shorter := length_write spacing first (depth + 1)
        (writeItems spacing (depth + 1) others (spacing.line depth ++ ']' :: rest))
      obtain ⟨c, opened, same, mark, differs⟩ := write_head spacing finite (depth + 1)
        (writeItems spacing (depth + 1) others (spacing.line depth ++ ']' :: rest))
      have read := value?_write blank first (depth + 1) _ bound finite
        (stops_writeItems spacing closes.2.1 (depth + 1) others) (by omega)
      have further := further?_writeItems blank others (depth + 1) _ rest bound bound
        finiteOthers closes (by omega) (by omega)
      refine value?_array (elements?_first ⟨c, opened, ?_, differs⟩ ?_ further)
      · rw [skipBlanks_append (blank.line _), same, skipBlanks_cons mark]
      · rw [value?_append (blank.line _), read]
  | .object [], depth, rest, bound + 1, _, _, _ => value?_object (elements?_close rfl)
  | .object ((key, value) :: others), depth, rest, bound + 1, finite, stops, enough => by
      obtain ⟨finite, finiteOthers⟩ := List.forall_mem_cons.mp (isFinite_object.mp finite)
      have closes := closes_append (blank.line depth) '\x7d' (by simp) rest
      simp only [write, List.length_cons, List.length_append] at enough
      have shorter := length_write spacing value (depth + 1)
        (writeMembers spacing (depth + 1) others (spacing.line depth ++ '\x7d' :: rest))
      have read := value?_write blank value (depth + 1) _ bound finite
        (stops_writeMembers spacing closes.2.1 (depth + 1) others) (by omega)
      have further := further?_writeMembers blank others (depth + 1) _ rest bound bound
        finiteOthers closes (by omega) (by omega)
      have member := member?_quote (blank.line (depth + 1)) blank.colon key read
      have starts : ∃ c opened, skipBlanks (spacing.line (depth + 1) ++ (quote key ++ ':' ::
          (spacing.colon ++ write spacing (depth + 1) value (writeMembers spacing (depth + 1) others
            (spacing.line depth ++ '\x7d' :: rest))))) = c :: opened ∧ c ≠ '\x7d' := by
        rw [skipBlanks_append (blank.line _)]
        exact ⟨'"', _, skipBlanks_cons rfl, by decide⟩
      have object := value?_object (elements?_first starts member further)
      simpa only [write, List.append_assoc, List.cons_append] using object

theorem further?_writeItems (blank : spacing.Blank) : ∀ (items : List Json) (depth : Nat)
    (tail rest : List Char) (bound within : Nat), (∀ item ∈ items, item.IsFinite) →
      Closes ']' tail rest → (writeItems spacing depth items tail).length ≤ bound →
      (writeItems spacing depth items tail).length ≤ within →
      further? ']' (value? within) bound (writeItems spacing depth items tail) = some (items, rest)
  | items, depth, tail, rest, 0, within, _, closes, enough, _ => by
      have longer := length_writeItems spacing items depth tail
      have some := closes.length_pos
      omega
  | [], depth, tail, rest, bound + 1, within, _, closes, _, _ => further?_close closes
  | item :: others, depth, tail, rest, bound + 1, within, finite, closes, enough, inside => by
      obtain ⟨finite, finiteOthers⟩ := List.forall_mem_cons.mp finite
      simp only [writeItems, List.length_cons, List.length_append] at enough inside
      have shorter := length_write spacing item depth (writeItems spacing depth others tail)
      have read := value?_write blank item depth (writeItems spacing depth others tail) within
        finite (stops_writeItems spacing closes.2.1 depth others) (by omega)
      have further := further?_writeItems blank others depth tail rest bound within finiteOthers
        closes (by omega) (by omega)
      refine further?_comma closes.1 ?_ further
      rw [value?_append (blank.line depth), read]

theorem further?_writeMembers (blank : spacing.Blank) : ∀ (members : List (String × Json))
    (depth : Nat) (tail rest : List Char) (bound within : Nat),
      (∀ member ∈ members, member.2.IsFinite) →
      Closes '\x7d' tail rest → (writeMembers spacing depth members tail).length ≤ bound →
      (writeMembers spacing depth members tail).length ≤ within →
      further? '\x7d' (member? (value? within)) bound (writeMembers spacing depth members tail) =
        some (members, rest)
  | members, depth, tail, rest, 0, within, _, closes, enough, _ => by
      have longer := length_writeMembers spacing members depth tail
      have some := closes.length_pos
      omega
  | [], depth, tail, rest, bound + 1, within, _, closes, _, _ => further?_close closes
  | (key, value) :: others, depth, tail, rest, bound + 1, within, finite, closes, enough,
      inside => by
      obtain ⟨finite, finiteOthers⟩ := List.forall_mem_cons.mp finite
      simp only [writeMembers, List.length_cons, List.length_append] at enough inside
      have shorter := length_write spacing value depth (writeMembers spacing depth others tail)
      have read := value?_write blank value depth (writeMembers spacing depth others tail) within
        finite (stops_writeMembers spacing closes.2.1 depth others) (by omega)
      have further := further?_writeMembers blank others depth tail rest bound within
        finiteOthers closes (by omega) (by omega)
      have member := member?_quote (blank.line depth) blank.colon key read
      simpa only [writeMembers, List.append_assoc, List.cons_append] using
        further?_comma closes.1 member further

end

/-- Every value with finite doubles is read back from its text in a form. -/
theorem ofText?_write (blank : spacing.Blank) {json : Json} (finite : json.IsFinite) :
    ofText? (String.ofList (write spacing 0 json [])) = some json := by
  have stops : Form.Stops [] := by nofun
  have read := value?_write blank json 0 [] _ finite stops (Nat.le_refl _)
  have nothing : skipBlanks [] = [] := rfl
  simp [ofText?, read, nothing]

end ScalarC.Json
