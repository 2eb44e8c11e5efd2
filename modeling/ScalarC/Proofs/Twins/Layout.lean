import ScalarC.Proofs.Twins.Program

/-!
Layout. Streams of the same lexemes, wherever these stand, have the same tree or
the same error at the same token; so white space and comments mean nothing.
-/

namespace ScalarC

/-- The same error at another place. -/
def ParseError.moved (place : Location) : ParseError → ParseError
  | malformed fault _ => malformed fault place
  | unknownType name _ => unknownType name place
  | duplicateSymbol name _ => duplicateSymbol name place
  | undeclaredSymbol name _ => undeclaredSymbol name place
  | typeMismatch fault _ => typeMismatch fault place
  | constAssignment name _ => constAssignment name place

/-- Places of the tokens at one index of two streams. Where there are no tokens, both are the
start of a text. -/
inductive SameToken (first second : List Token) : Location → Location → Prop where
  | at_index {index : Nat} {one other : Token} :
      first[index]? = some one → second[index]? = some other →
      SameToken first second one.location other.location
  | nowhere : first = [] → second = [] → SameToken first second Location.start Location.start

/-- The same tree, or the same error at the same token. -/
inductive SameOutcome (first second : List Token) :
    Except ParseError Node → Except ParseError Node → Prop where
  | tree (tree : Node) : SameOutcome first second (.ok tree) (.ok tree)
  | error {error : ParseError} {place : Location} :
      SameToken first second error.location place →
      SameOutcome first second (.error error) (.error (error.moved place))

theorem SameOutcome.ok_iff {first second : List Token} {result other : Except ParseError Node}
    (same : SameOutcome first second result other) (tree : Node) :
    result = .ok tree ↔ other = .ok tree := by
  cases same with
  | tree => exact .rfl
  | error => exact ⟨nofun, nofun⟩

namespace Twins

section Layout

variable {first second : List Token} (same : first.map Token.toLexeme = second.map Token.toLexeme)

/-- Tokens at the same index stand for each other, and nothing is renamed. -/
def layout : Twins where
  rename := id
  injective := Function.injective_id
  types _ _ := rfl
  pair one other := ∃ index : Nat, first[index]? = some one ∧ second[index]? = some other
  lexeme := by
    rintro one other ⟨index, here, there⟩
    have lexemes := congrArg (·[index]?) same
    simp only [List.getElem?_map, here, there, Option.map_some, Option.some.injEq] at lexemes
    rw [Lexeme.renamed_id, lexemes]

theorem layout_streams : List.Forall₂ (layout same).pair first second := by
  have count : first.length = second.length := by simpa using congrArg List.length same
  rw [List.forall₂_iff_get]
  refine ⟨count, fun index here there => ⟨index, ?_, ?_⟩⟩
  · exact List.getElem?_eq_getElem here
  · exact List.getElem?_eq_getElem there

theorem layout_places {place other : Location} (places : (layout same).Places place other) :
    SameToken first second place other := by
  obtain ⟨index, here, there⟩ := places
  exact .at_index here there

theorem layout_errors {error other : ParseError} (errors : (layout same).Errors error other) :
    SameToken first second error.location other.location ∧
      other = error.moved other.location := by
  have text {one other : Token} (pair : (layout same).pair one other) : other.text = one.text := by
    rw [(layout same).lexeme pair]
    exact congrArg Lexeme.text one.toLexeme.renamed_id
  cases errors with
  | malformed fault place =>
      exact ⟨layout_places same place, congrArg (ParseError.malformed · _) fault.renamed_id⟩
  | typeMismatch faults place =>
      exact ⟨layout_places same place, congrArg (ParseError.typeMismatch · _) faults.of_id⟩
  | unknownType pair =>
      exact ⟨layout_places same (places pair), congrArg (ParseError.unknownType · _) (text pair)⟩
  | duplicateSymbol names =>
      exact ⟨layout_places same (places names.pair),
        congrArg (ParseError.duplicateSymbol · _) (text names.pair)⟩
  | undeclaredSymbol names =>
      exact ⟨layout_places same (places names.pair),
        congrArg (ParseError.undeclaredSymbol · _) (text names.pair)⟩
  | constAssignment names =>
      exact ⟨layout_places same (places names.pair),
        congrArg (ParseError.constAssignment · _) (text names.pair)⟩

theorem layout_outcome {result other : Except ParseError Node}
    (agree : (layout same).Agree (layout same).Nodes result other) :
    SameOutcome first second result other := by
  cases agree with
  | @ok tree other both =>
      have alike : other = tree := both.trans tree.renamed_id
      rw [alike]
      exact .tree tree
  | error errors =>
      obtain ⟨token, moved⟩ := layout_errors same errors
      rw [moved]
      exact .error token

end Layout

end Twins

theorem parse_same_outcome {first second : List Token}
    (same : first.map Token.toLexeme = second.map Token.toLexeme) :
    SameOutcome first second (parse first) (parse second) := by
  by_cases filled : first = []
  · have also : second = [] := by simpa [filled] using same.symm
    subst filled also
    exact .error (.nowhere rfl rfl)
  · exact Twins.layout_outcome same (Twins.parse_agree (Twins.layout_streams same) filled)

theorem Program.ofSource_eq_ok {source : String} {tokens : List Token} {tree : Node}
    (read : tokenize source = .ok tokens) :
    ofSource source = .ok tree ↔ parse tokens = .ok tree := by
  simp only [ofSource, read]
  cases parse tokens <;> simp [Except.mapError]

/-- Layout decides nothing: streams of the same lexemes have the same tree or the same error at
the same token, and source texts with these tokens have the same trees. -/
theorem parse_ignores_layout {first second : List Token}
    (same : first.map Token.toLexeme = second.map Token.toLexeme) :
    SameOutcome first second (parse first) (parse second) ∧
      ∀ source other : String, tokenize source = .ok first → tokenize other = .ok second →
        ∀ tree, Program.ofSource source = .ok tree ↔ Program.ofSource other = .ok tree := by
  refine ⟨parse_same_outcome same, ?_⟩
  intro source other here there tree
  rw [Program.ofSource_eq_ok here, Program.ofSource_eq_ok there]
  exact (parse_same_outcome same).ok_iff tree

section Sample

def Program.tight : List Token :=
  [⟨.keyword "int", ⟨1, 1⟩⟩, ⟨⟨.identifier, "a"⟩, ⟨1, 5⟩⟩, ⟨.operator "=", ⟨1, 6⟩⟩,
    ⟨⟨.number, "1"⟩, ⟨1, 7⟩⟩, ⟨.punctuation ";", ⟨1, 8⟩⟩, ⟨.endOfInput, ⟨1, 9⟩⟩]

def Program.loose : List Token :=
  [⟨.keyword "int", ⟨1, 1⟩⟩, ⟨⟨.identifier, "a"⟩, ⟨2, 3⟩⟩, ⟨.operator "=", ⟨2, 5⟩⟩,
    ⟨⟨.number, "1"⟩, ⟨2, 17⟩⟩, ⟨.punctuation ";", ⟨2, 18⟩⟩, ⟨.endOfInput, ⟨3, 1⟩⟩]

theorem Program.loose_as_tight :
    tokenize "int a=1;" = .ok tight ∧ tokenize "int\n  a = /* one */ 1;\n" = .ok loose ∧
      SameOutcome tight loose (parse tight) (parse loose) ∧
      ∀ tree, ofSource "int a=1;" = .ok tree ↔
        ofSource "int\n  a = /* one */ 1;\n" = .ok tree := by
  have here : tokenize "int a=1;" = .ok tight := by decide +kernel
  have there : tokenize "int\n  a = /* one */ 1;\n" = .ok loose := by decide +kernel
  have ignores := parse_ignores_layout (show tight.map _ = loose.map _ by decide)
  exact ⟨here, there, ignores.1, ignores.2 _ _ here there⟩

end Sample

end ScalarC
