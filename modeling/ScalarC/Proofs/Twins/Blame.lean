import ScalarC.Proofs.Spelling.Cutting
import ScalarC.Proofs.Twins.Layout

/-!
Who is to blame for an error. A stream is a twin of itself, and twin errors stand
at tokens of their streams; so an error always stands at one token of the stream,
and a name it carries is the text of that very token. In a source text the token
stands where the error says.
-/

namespace ScalarC

def ParseError.name? : ParseError → Option String
  | unknownType name _ | duplicateSymbol name _ | undeclaredSymbol name _
  | constAssignment name _ => some name
  | malformed _ _ | typeMismatch _ _ => none

/-- An error stands at this token, and a name it carries is the token's. -/
structure ParseError.Blames (error : ParseError) (token : Token) : Prop where
  location : token.location = error.location
  name : ∀ name, error.name? = some name → token.text = name

/-- The text of a token starts at the token's place, and the end of input is where the text ends. -/
structure Token.StandsIn (token : Token) (text before rest : List Char) : Prop where
  text : text = before ++ token.text.toList ++ rest
  location : token.location = Location.behind before
  ends : token.kind = .endOfInput → token.text = "" ∧ rest = []

namespace Twins

def mirror (tokens : List Token) : Twins :=
  layout (rfl : tokens.map Token.toLexeme = tokens.map Token.toLexeme)

variable {tokens : List Token}

theorem mirror_pair {one other : Token} (pair : (mirror tokens).pair one other) :
    one = other ∧ one ∈ tokens := by
  obtain ⟨index, here, there⟩ := pair
  exact ⟨Option.some.inj (here.symm.trans there), List.mem_of_getElem? here⟩

theorem mirror_places {place other : Location} (places : (mirror tokens).Places place other) :
    ∃ token ∈ tokens, token.location = place := by
  obtain ⟨pair⟩ := places
  exact ⟨_, (mirror_pair pair).2, rfl⟩

theorem mirror_errors {error other : ParseError} (errors : (mirror tokens).Errors error other) :
    ∃ token ∈ tokens, error.Blames token := by
  cases errors with
  | malformed fault place | typeMismatch faults place =>
      obtain ⟨token, member, stands⟩ := mirror_places place
      exact ⟨token, member, stands, nofun⟩
  | @unknownType token _ pair =>
      exact ⟨token, (mirror_pair pair).2, rfl, fun _ named => Option.some.inj named⟩
  | @duplicateSymbol token _ names | @undeclaredSymbol token _ names
  | @constAssignment token _ names =>
      exact ⟨token, (mirror_pair names.pair).2, rfl, fun _ named => Option.some.inj named⟩

end Twins

theorem blamed_of_error {tokens : List Token} {error : ParseError} (filled : tokens ≠ [])
    (failed : parse tokens = .error error) : ∃ token ∈ tokens, error.Blames token := by
  have streams := Twins.layout_streams (rfl : tokens.map Token.toLexeme = tokens.map Token.toLexeme)
  have agree := Twins.parse_agree streams filled
  rw [failed] at agree
  cases agree with
  | error errors => exact Twins.mirror_errors errors

theorem Cut.stands {before text : List Char} {tokens : List Token} (cut : Cut before text tokens) :
    ∀ token ∈ tokens, ∃ front rest, token.StandsIn (before ++ text) front rest := by
  induction cut with
  | @finish before gap _ =>
      refine List.forall_mem_singleton.mpr ⟨before ++ gap, [], ?_, rfl, fun _ => ⟨rfl, rfl⟩⟩
      simp [Lexeme.endOfInput]
  | @token before gap rest lexeme tokens _ spelled _ _ ih =>
      refine List.forall_mem_cons.mpr ⟨⟨before ++ gap, rest, ?_, rfl, ?_⟩, ?_⟩
      · simp
      · -- A lexeme that is spelled is not the end of input.
        intro ends
        cases spelled <;> cases ends
      · simpa using ih

theorem Cut.tokens_ne_nil {before text : List Char} {tokens : List Token}
    (cut : Cut before text tokens) : tokens ≠ [] := by
  cases cut <;> simp

/-- An error of the parser stands at a token of the stream and names that token. In a source text
this is the place of a lexeme or of the end, and the name is what stands there. -/
theorem parse_error_blames {tokens : List Token} {error : ParseError}
    (failed : parse tokens = .error error) :
    (tokens ≠ [] → ∃ token ∈ tokens, error.Blames token) ∧
      ∀ source, tokenize source = .ok tokens →
        ∃ token ∈ tokens, error.Blames token ∧
          ∃ before rest, token.StandsIn source.toList before rest := by
  refine ⟨fun filled => blamed_of_error filled failed, ?_⟩
  intro source read
  have cut := cut_of_tokens (Scanner.ofString source) [] tokens rfl read
  obtain ⟨token, member, blames⟩ := blamed_of_error cut.tokens_ne_nil failed
  exact ⟨token, member, blames, cut.stands token member⟩

section Sample

def Program.redeclared : List Token :=
  [⟨.keyword "int", ⟨1, 1⟩⟩, ⟨⟨.identifier, "a"⟩, ⟨1, 5⟩⟩, ⟨.punctuation ";", ⟨1, 6⟩⟩,
    ⟨.keyword "long", ⟨2, 1⟩⟩, ⟨⟨.identifier, "a"⟩, ⟨2, 6⟩⟩, ⟨.punctuation ";", ⟨2, 7⟩⟩,
    ⟨.endOfInput, ⟨2, 8⟩⟩]

theorem Program.redeclared_blames :
    parse redeclared = .error (.duplicateSymbol "a" ⟨2, 6⟩) ∧
      tokenize "int a;\nlong a;" = .ok redeclared ∧
      ∃ token ∈ redeclared, (ParseError.duplicateSymbol "a" ⟨2, 6⟩).Blames token ∧
        ∃ before rest, token.StandsIn "int a;\nlong a;".toList before rest := by
  have failed : parse redeclared = .error (.duplicateSymbol "a" ⟨2, 6⟩) := by decide +kernel
  have read : tokenize "int a;\nlong a;" = .ok redeclared := by decide +kernel
  exact ⟨failed, read, (parse_error_blames failed).2 _ read⟩

end Sample

end ScalarC
