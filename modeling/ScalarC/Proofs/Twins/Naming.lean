import Mathlib.Logic.Equiv.Basic
import ScalarC.Proofs.Twins.Program

/-!
Names. Streams that differ by a renaming of identifiers that merges none have
the same tree under other names, or the same error at the same place about the
renamed identifier; so names only matter in being the same or not.
-/

namespace ScalarC

/-- The error that takes the place of another where identifiers are renamed. The word that is
no type may be a keyword, which keeps its text. -/
inductive ParseError.Renames (rename : String → String) : ParseError → ParseError → Prop where
  | malformed (fault : GrammarFault) (place : Location) :
      Renames rename (.malformed fault place) (.malformed (fault.renamed rename) place)
  | unknownType (word : Lexeme) (place : Location) :
      Renames rename (.unknownType word.text place)
        (.unknownType (word.renamed rename).text place)
  | duplicateSymbol (name : String) (place : Location) :
      Renames rename (.duplicateSymbol name place) (.duplicateSymbol (rename name) place)
  | undeclaredSymbol (name : String) (place : Location) :
      Renames rename (.undeclaredSymbol name place) (.undeclaredSymbol (rename name) place)
  | typeMismatch {fault other : TypeFault} (place : Location) :
      fault.Renames rename other →
      Renames rename (.typeMismatch fault place) (.typeMismatch other place)
  | constAssignment (name : String) (place : Location) :
      Renames rename (.constAssignment name place) (.constAssignment (rename name) place)

namespace Twins

section Naming

variable {rename : String → String} (injective : Function.Injective rename)
  (types : ∀ word ∈ ["int", "long", "float", "double"], rename word = word)

def naming : Twins where
  rename := rename
  injective := injective
  types := types
  pair one other := other = one.renamed rename
  lexeme := by
    rintro one _ rfl
    rfl

theorem naming_streams (tokens : List Token) :
    List.Forall₂ (naming injective types).pair tokens (tokens.map (Token.renamed rename)) := by
  induction tokens with
  | nil => exact .nil
  | cons token tokens ih => exact .cons rfl ih

theorem naming_places {place other : Location}
    (places : (naming injective types).Places place other) : other = place := by
  obtain ⟨rfl⟩ := places
  rfl

theorem naming_errors {error other : ParseError}
    (errors : (naming injective types).Errors error other) : error.Renames rename other := by
  cases errors with
  | malformed fault place =>
      rw [naming_places injective types place]
      exact .malformed fault _
  | typeMismatch faults place =>
      rw [naming_places injective types place]
      exact .typeMismatch _ faults
  | @unknownType one other pair =>
      subst pair
      exact .unknownType one.toLexeme one.location
  | @duplicateSymbol one other names =>
      rw [names.text, naming_places injective types (places names.pair)]
      exact .duplicateSymbol one.text one.location
  | @undeclaredSymbol one other names =>
      rw [names.text, naming_places injective types (places names.pair)]
      exact .undeclaredSymbol one.text one.location
  | @constAssignment one other names =>
      rw [names.text, naming_places injective types (places names.pair)]
      exact .constAssignment one.text one.location

end Naming

end Twins

/-- Renaming identifiers commutes with parsing. No name is special but for those of types, and
a consistent renaming neither captures nor loses a reference. -/
theorem parse_renamed {rename : String → String} (injective : Function.Injective rename)
    (types : ∀ word ∈ ["int", "long", "float", "double"], rename word = word)
    (tokens : List Token) :
    (∀ tree, parse tokens = .ok tree →
        parse (tokens.map (Token.renamed rename)) = .ok (tree.renamed rename)) ∧
      ∀ error, parse tokens = .error error →
        ∃ other, parse (tokens.map (Token.renamed rename)) = .error other ∧
          error.Renames rename other := by
  by_cases filled : tokens = []
  · subst filled
    refine ⟨nofun, ?_⟩
    rintro _ ⟨⟩
    exact ⟨_, rfl, .malformed .emptyStream Location.start⟩
  have agree := Twins.parse_agree (Twins.naming_streams injective types tokens) filled
  generalize parse tokens = result at agree ⊢
  generalize parse (tokens.map (Token.renamed rename)) = other at agree ⊢
  cases agree with
  | ok both =>
      refine ⟨?_, nofun⟩
      rintro _ ⟨⟩
      exact congrArg Except.ok both
  | error errors =>
      refine ⟨nofun, ?_⟩
      rintro _ ⟨⟩
      exact ⟨_, rfl, Twins.naming_errors injective types errors⟩

section Sample

/-- The names `a` and `b` in each other's place. -/
def Program.exchange : String → String := Equiv.swap "a" "b"

def Program.original : String := "int a; int f(int b) \x7b return a + b; \x7d"

def Program.exchanged : String := "int b; int f(int a) \x7b return b + a; \x7d"

theorem Program.exchanged_names :
    Function.Injective exchange ∧
      (∀ word ∈ ["int", "long", "float", "double"], exchange word = word) ∧
      ∃ tokens tree,
        tokenize original = .ok tokens ∧
        tokenize exchanged = .ok (tokens.map (Token.renamed exchange)) ∧
        parse tokens = .ok tree ∧
        parse (tokens.map (Token.renamed exchange)) = .ok (tree.renamed exchange) := by
  have injective : Function.Injective exchange := (Equiv.swap "a" "b").injective
  have types : ∀ word ∈ ["int", "long", "float", "double"], exchange word = word := by decide
  have accepted :
      ((tokenize original).toOption.bind fun tokens => (parse tokens).toOption).isSome := by
    decide +kernel
  have renamed : (tokenize exchanged).toOption =
      (tokenize original).toOption.map (List.map (Token.renamed exchange)) := by
    decide +kernel
  obtain ⟨tree, accepted⟩ := Option.isSome_iff_exists.mp accepted
  obtain ⟨tokens, read, parsed⟩ := Option.bind_eq_some_iff.mp accepted
  rw [read, Option.map_some] at renamed
  have parsed := toOption_eq_some.mp parsed
  refine ⟨injective, types, tokens, tree, toOption_eq_some.mp read, toOption_eq_some.mp renamed,
    parsed, ?_⟩
  exact (parse_renamed injective types tokens).1 tree parsed

end Sample

end ScalarC
