import ScalarC.Proofs.Phrase.Faults

/-!
Steps of parsers. Every parser is put together from the same few steps, and one
of them alone reads: it takes the next token, and stays where it is at the end of
input. So no parser reads outside of the stream or goes back, whether it succeeds
or fails, and this holds at every point of its run.
-/

namespace ScalarC

/-- The error of a jump that stands in no loop. -/
inductive ParseError.IsStray : ParseError → Prop where
  | intro {word : String} {place : Location} : IsStray (.malformed (.jumpOutsideLoop word) place)

theorem ParseError.IsSemantic.not_isStray : ∀ error, IsSemantic error → ¬ error.IsStray := by
  rintro _ semantic ⟨⟩
  exact semantic _ _ rfl

theorem ParseError.IsTyping.not_isStray : ∀ error, IsTyping error → ¬ error.IsStray :=
  IsTyping.allowed IsSemantic.not_isStray

theorem Pending.not_isStray (expression : Pending) : expression.Tolerated (¬ ·.IsStray) := by
  induction expression with
  | literal => exact fun _ _ _ => nofun
  | neg _ ih => exact ih
  | binary _ _ _ _ left right => exact ⟨left, right⟩

theorem Operand.not_isStray (operand : Operand) : operand.Tolerated (¬ ·.IsStray) := by
  cases operand with
  | typed => trivial
  | pending expression => exact expression.not_isStray

/-- Where a parser can leave a state: behind it in the same stream. -/
structure State.Onward (before after : State) : Prop where
  unread : after.unread <:+ before.unread
  finish : after.finish = before.finish

theorem State.Onward.refl (state : State) : state.Onward state :=
  ⟨List.suffix_rfl, rfl⟩

theorem State.Onward.trans {before middle after : State} (first : before.Onward middle)
    (second : middle.Onward after) : before.Onward after :=
  ⟨second.unread.trans first.unread, second.finish.trans first.finish⟩

namespace Parse

variable {α β : Type}

/-- The state a run leaves, also where it fails. -/
def final (parser : Parse α) (state : State) : State :=
  match parser state with
  | .ok _ after => after
  | .error _ after => after

/-- Parsers put together from steps. What a step looks at is up to it; the tokens left to read
change only in `advance`. -/
inductive Built : {α : Type} → Parse α → Prop where
  | look {α : Type} (view : State → α) : Built fun state => .ok (view state) state
  | raise {α : Type} (error : ParseError) : Built (Parse.raise error : Parse α)
  | advance : Built Parse.advance
  | setScope (scope : Scope) : Built (Parse.setScope scope)
  | setEnclosing (function : Option Enclosing) : Built (Parse.setEnclosing function)
  | inLoop {α : Type} {body : Parse α} : Built body → Built (Parse.inLoop body)
  | bind {α β : Type} {first : Parse α} {next : α → Parse β} :
      Built first → (∀ value, Built (next value)) → Built (first >>= next)

/-- What holds of the steps that neither declare nor count anything, and of all that is put
together from parsers it holds of. One error is left to jumps. -/
structure Steps (made : (α : Type) → Parse α → Prop) : Prop where
  look {α : Type} (view : State → α) : made α fun state => .ok (view state) state
  raise {α : Type} {error : ParseError} : ¬ error.IsStray → made α (Parse.raise error)
  advance : made Token Parse.advance
  bind {α β : Type} {first : Parse α} {next : α → Parse β} :
    made α first → (∀ value, made β (next value)) → made β (first >>= next)

/-- The parts a run of a parser comes to, each in the state it comes to it in. A parser is a
function and shows no text, so these are the parts of all ways to put it together from steps. -/
inductive Part {α : Type} (whole : Parse α) (start : State) :
    {β : Type} → Parse β → State → Prop where
  | whole : Part whole start whole start
  | first {β γ : Type} {parser : Parse β} {next : β → Parse γ} {state : State} :
      Built parser → (∀ value, Built (next value)) →
      Part whole start (parser >>= next) state → Part whole start parser state
  | next {β γ : Type} {parser : Parse β} {next : β → Parse γ} {state after : State} {value : β} :
      Built parser → (∀ value, Built (next value)) →
      Part whole start (parser >>= next) state → parser state = .ok value after →
      Part whole start (next value) after
  | body {β : Type} {parser : Parse β} {state : State} :
      Built parser → Part whole start (Parse.inLoop parser) state →
      Part whole start parser { state with loopDepth := state.loopDepth + 1 }

/-! What a step leaves, and from it what a run does. -/

theorem final_of_ok {parser : Parse α} {state after : State} {value : α}
    (done : parser state = .ok value after) : final parser state = after := by
  rw [final, done]

theorem final_advance (state : State) :
    final advance state = { state with unread := state.unread.tail } := by
  rcases state with ⟨unread, finish, scope, function, loopDepth, closes⟩
  cases unread <;> rfl

@[elab_as_elim]
theorem final_bind {motive : State → Prop} {first : Parse α} {next : α → Parse β} {state : State}
    (failed : motive (final first state))
    (onward : ∀ value, motive (final (next value) (final first state))) :
    motive (final (first >>= next) state) := by
  simp only [final, Bind.bind, EStateM.bind] at failed onward ⊢
  cases ran : first state with
  | error error after => simpa [ran] using failed
  | ok value middle => simpa [ran] using onward value

theorem final_inLoop (body : Parse α) (state : State) :
    final (inLoop body) state =
      let after := final body { state with loopDepth := state.loopDepth + 1 }
      { after with loopDepth := after.loopDepth - 1 } := by
  unfold final inLoop
  cases body { state with loopDepth := state.loopDepth + 1 } <;> rfl

theorem Built.onward {parser : Parse α} (built : Built parser) (state : State) :
    state.Onward (final parser state) := by
  induction built generalizing state with
  | look | raise => exact .refl state
  | advance =>
      rw [final_advance]
      exact ⟨List.tail_suffix _, rfl⟩
  | setScope | setEnclosing => exact ⟨List.suffix_rfl, rfl⟩
  | inLoop _ ih =>
      have within := ih { state with loopDepth := state.loopDepth + 1 }
      rw [final_inLoop]
      exact ⟨within.unread, within.finish⟩
  | bind _ _ first next =>
      refine final_bind (first state) fun value => ?_
      exact (first state).trans (next value _)

/-- A run counts no loops but those it is in, whether it succeeds or fails. -/
theorem Built.loopDepth {parser : Parse α} (built : Built parser) (state : State) :
    (final parser state).loopDepth = state.loopDepth := by
  induction built generalizing state with
  | look | raise | setScope | setEnclosing => rfl
  | advance => rw [final_advance]
  | inLoop _ ih =>
      rw [final_inLoop]
      exact Nat.sub_eq_of_eq_add (ih _)
  | bind _ _ first next =>
      refine final_bind (first state) fun value => ?_
      exact (next value _).trans (first state)

theorem Part.onward {whole : Parse α} {start state : State} {part : Parse β}
    (is : Part whole start part state) (built : Built whole) :
    Built part ∧ start.Onward state := by
  induction is with
  | whole => exact ⟨built, .refl start⟩
  | first parser _ _ ih => exact ⟨parser, ih.2⟩
  | @next _ _ _ _ state _ _ parser next _ done ih =>
      have read := parser.onward state
      rw [final_of_ok done] at read
      exact ⟨next _, ih.2.trans read⟩
  | body parser _ ih => exact ⟨parser, ih.2.unread, ih.2.finish⟩

theorem outcome_eq_ok {parser : Parse α} {state after : State} {value : α} :
    outcome parser state = .ok (value, after) ↔ parser state = .ok value after := by
  unfold outcome
  cases parser state <;> simp

theorem Built.unread_le {parser : Parse α} (built : Built parser) {state after : State} {value : α}
    (done : outcome parser state = .ok (value, after)) :
    after.unread.length ≤ state.unread.length := by
  have onward := built.onward state
  rw [final_of_ok (outcome_eq_ok.mp done)] at onward
  exact onward.unread.length_le

/-! The smaller parsers. -/

section Made

variable {made : (α : Type) → Parse α → Prop}

theorem ite_made {choice : Prop} [Decidable choice] {first second : Parse α}
    (holds : made _ first) (fails : made _ second) :
    made _ (if choice then first else second) := by
  split
  · exact holds
  · exact fails

namespace Steps

variable (steps : Steps made)
include steps

theorem pure (value : α) : made _ (Pure.pure value : Parse α) :=
  steps.look fun _ => value

theorem ofExcept {good : α → Prop} {result : Except ParseError α}
    (admissible : Admissible (¬ ·.IsStray) good result) : made _ (Parse.ofExcept result) := by
  cases result with
  | ok value => exact steps.pure value
  | error error => exact steps.raise admissible

theorem peek : made _ Parse.peek := steps.look _

theorem peekAhead (places : Nat) : made _ (Parse.peekAhead places) := steps.look _

theorem unreadCount : made _ Parse.unreadCount := steps.look _

theorem enclosing : made _ Parse.enclosing := steps.look _

theorem loopDepth : made _ Parse.loopDepth := steps.look _

theorem scope : made _ Parse.scope := steps.look _

theorem fail {fault : GrammarFault} (other : ∀ word, fault ≠ .jumpOutsideLoop word) :
    made _ (Parse.fail fault : Parse α) := by
  apply steps.bind steps.peek
  intro token
  exact steps.raise fun | .intro => other _ rfl

theorem sees (lexeme : Lexeme) : made _ (Parse.sees lexeme) :=
  steps.bind steps.peek fun _ => steps.pure _

theorem seesAhead (places : Nat) (lexeme : Lexeme) : made _ (Parse.seesAhead places lexeme) :=
  steps.bind (steps.peekAhead places) fun _ => steps.pure _

theorem seesIdentifierAhead : made _ Parse.seesIdentifierAhead :=
  steps.bind (steps.peekAhead 1) fun _ => steps.pure _

theorem accept (lexeme : Lexeme) : made _ (Parse.accept lexeme) :=
  steps.bind steps.peek fun _ =>
    ite_made (steps.bind steps.advance fun _ => steps.pure _) (steps.pure _)

theorem expect (lexeme : Lexeme) (context : String) : made _ (Parse.expect lexeme context) :=
  steps.bind steps.peek fun _ =>
    ite_made (steps.bind steps.advance fun _ => steps.pure _) (steps.raise nofun)

theorem expectPunctuation (mark context : String) :
    made _ (Parse.expectPunctuation mark context) :=
  steps.expect _ _

theorem expectIdentifier : made _ Parse.expectIdentifier :=
  steps.bind steps.peek fun _ => ite_made steps.advance (steps.raise nofun)

theorem onlyIf (wanted : Bool) {parser : Parse α} (built : made _ parser) :
    made _ (Parse.onlyIf wanted parser) :=
  ite_made (steps.bind built fun _ => steps.pure _) (steps.pure _)

end Steps

end Made

namespace Built

theorem closed : Steps @Built := ⟨.look, fun _ => .raise _, .advance, .bind⟩

theorem ofExcept {α : Type} (result : Except ParseError α) : Built (Parse.ofExcept result) := by
  cases result with
  | ok value => exact closed.pure value
  | error error => exact .raise error

theorem declare (declaration : Scope → Except ParseError (Variable × Scope)) :
    Built (Parse.declare declaration) :=
  closed.scope.bind fun _ => (ofExcept _).bind fun _ => .setScope _

end Built

end Parse

end ScalarC
