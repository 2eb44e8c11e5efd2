import ScalarC.Proofs.Cursor.Parsers
import ScalarC.Proofs.Scope

/-!
What surrounds a parser. The scope of a function is open around its parameters
and its body, the function itself is known in its body only, and so many loops
are counted. Parsers move from one surrounding to another, with the same loops
behind them as before, and so does what is put together from them. A run that
fails has read on from where it began, unless it failed for what is given.
-/

namespace ScalarC

/-- What a parser runs in: a module, the parameters of a function or the body of one. -/
inductive Surrounding where
  | module
  | header
  | body
  deriving DecidableEq

/-- A state in its surrounding, under so many loops. -/
structure State.Within (state : State) (place : Surrounding) (loops : Nat) : Prop where
  scope : state.scope.locals.isSome = true ↔ place ≠ .module
  function : state.function.isSome = true ↔ place = .body
  loopDepth : state.loopDepth = loops

theorem State.Within.declare {state : State} {place : Surrounding} {loops : Nat} {scope : Scope}
    (within : state.Within place loops)
    (same : scope.locals.isSome = state.scope.locals.isSome) :
    { state with scope }.Within place loops :=
  ⟨same ▸ within.scope, within.function, within.loopDepth⟩

theorem Scope.declareInFunction_isSome {scope after : Scope} {declared entry : Variable}
    {place : Location} (done : scope.declareInFunction declared place = .ok (entry, after)) :
    after.locals.isSome = scope.locals.isSome := by
  obtain ⟨locals, opened, _, _, rfl⟩ := Scope.declareInFunction_eq_ok.mp done
  simp [opened]

namespace Parse

/-- A parser that moves from one surrounding to another under the same loops. A failure that leaves
tokens other than those behind the start is one that `failed` holds of. -/
structure Moves (failed : Nat → Prop) (place behind : Surrounding) {α : Type} (parser : Parse α) :
    Prop where
  ok : ∀ {loops : Nat} {state after : State} {value : α}, state.Within place loops →
    parser state = .ok value after → after.Within behind loops ∧ after.unread <:+ state.unread
  error : ∀ {loops : Nat} {state after : State} {error : ParseError}, state.Within place loops →
    parser state = .error error after → failed loops ∨ after.unread <:+ state.unread

namespace Moves

variable {failed : Nat → Prop} {place middle behind : Surrounding} {α β : Type} {parser : Parse α}

theorem of_built (built : Built parser)
    (kept : ∀ {loops : Nat} {state after : State} {value : α}, state.Within place loops →
      outcome parser state = .ok (value, after) → after.Within behind loops) :
    Moves failed place behind parser where
  ok {loops state after value} within done := by
    have onward := (built.onward state).unread
    rw [final_of_ok done] at onward
    exact ⟨kept within (outcome_eq_ok.mpr done), onward⟩
  error {loops state after error} within done := by
    have onward := (built.onward state).unread
    rw [final, done] at onward
    exact .inr onward

theorem bind {next : α → Parse β} (first : Moves failed place middle parser)
    (onward : ∀ value, Moves failed middle behind (next value)) :
    Moves failed place behind (parser >>= next) := by
  constructor
  · intro loops state after value within done
    simp only [Bind.bind, EStateM.bind] at done
    cases ran : parser state with
    | error error left => simp [ran] at done
    | ok given between =>
        rw [ran] at done
        obtain ⟨reached, read⟩ := first.ok within ran
        obtain ⟨left, further⟩ := (onward given).ok reached done
        exact ⟨left, further.trans read⟩
  · intro loops state after error within done
    simp only [Bind.bind, EStateM.bind] at done
    cases ran : parser state with
    | error other left =>
        simp only [ran, EStateM.Result.error.injEq] at done
        obtain ⟨rfl, rfl⟩ := done
        exact first.error within ran
    | ok given between =>
        rw [ran] at done
        obtain ⟨reached, read⟩ := first.ok within ran
        exact ((onward given).error reached done).imp_right fun further => further.trans read

theorem mono {weaker : Nat → Prop} (moves : Moves failed place behind parser)
    (implies : ∀ loops, failed loops → weaker loops) : Moves weaker place behind parser where
  ok := moves.ok
  error within done := (moves.error within done).imp_left (implies _)

theorem raise (error : ParseError) :
    Moves failed place behind (Parse.raise error : Parse α) :=
  .of_built (.raise error) nofun

theorem steps : Steps (@Moves failed place place) where
  look view := .of_built (.look view) fun within done => by
    cases done
    exact within
  raise _ := .raise _
  advance := .of_built .advance fun within done => by
    have same := final_of_ok (outcome_eq_ok.mp done)
    rw [final_advance] at same
    exact same ▸ ⟨within.scope, within.function, within.loopDepth⟩
  bind := bind

theorem inLoop {outside : Nat → Prop} (body : Moves failed place behind parser)
    (deeper : ∀ loops, failed (loops + 1) → outside loops) :
    Moves outside place behind (Parse.inLoop parser) := by
  have entered {loops : Nat} {state : State} (within : state.Within place loops) :
      { state with loopDepth := state.loopDepth + 1 }.Within place (loops + 1) :=
    ⟨within.scope, within.function, congrArg (· + 1) within.loopDepth⟩
  constructor
  · intro loops state after value within done
    simp only [Parse.inLoop] at done
    split at done <;> cases done
    next left ran =>
      obtain ⟨reached, read⟩ := body.ok (entered within) ran
      exact ⟨⟨reached.scope, reached.function, by simp [reached.loopDepth]⟩, read⟩
  · intro loops state after error within done
    simp only [Parse.inLoop] at done
    split at done <;> cases done
    next left ran => exact (body.error (entered within) ran).imp_left (deeper loops)

/-! Steps that declare. -/

theorem declareGlobal (name : String) (type : DataType) (constant : Bool) (at_ : Location) :
    Moves failed place place
      (Parse.declare fun scope => scope.declareGlobal name type constant at_) := by
  refine .of_built (.declare _) fun within done => ?_
  simp only [outcome_declare, bind_eq_ok, Prod.exists, Except.ok.injEq, Prod.mk.injEq] at done
  obtain ⟨entry, scope, declared, -, rfl⟩ := done
  obtain ⟨_, _, rfl⟩ := Scope.declareGlobal_eq_ok.mp declared
  exact within.declare rfl

theorem declareInFunction {declaration : Scope → Except ParseError (Variable × Scope)}
    {declared : Variable} {at_ : Location}
    (inFunction : ∀ scope, declaration scope = scope.declareInFunction declared at_) :
    Moves failed place place (Parse.declare declaration) := by
  refine .of_built (.declare _) fun within done => ?_
  simp only [outcome_declare, bind_eq_ok, Prod.exists, Except.ok.injEq, Prod.mk.injEq] at done
  obtain ⟨entry, scope, done, -, rfl⟩ := done
  rw [inFunction] at done
  exact within.declare (Scope.declareInFunction_isSome done)

theorem declareFunction (name : Token) (signature : Signature) :
    Moves failed place place (Declaration.declareFunction name signature) := by
  refine .of_built (.declareFunction name signature) fun within done => ?_
  simp only [Declaration.declareFunction, outcome_bind, outcome_scope, outcome_ofExcept,
    outcome_setScope, ok_bind, bind_eq_ok, Prod.exists, Except.ok.injEq, Prod.mk.injEq] at done
  obtain ⟨scope, _, ⟨_, declared, rfl, rfl⟩, -, rfl⟩ := done
  obtain ⟨_, rfl⟩ := Scope.declareFunction_eq_ok.mp declared
  exact within.declare rfl

theorem bodySteps : BodySteps (@Moves (fun _ => False) .body .body) where
  toSteps := steps
  stray _ := .raise _
  declareLocal _ _ _ := .declareInFunction fun _ => rfl
  inLoop body := body.inLoop fun _ => id

theorem localDeclaration : Moves failed .body .body Statement.localDeclaration :=
  steps.localDeclaration fun _ _ _ => .declareInFunction fun _ => rfl

theorem jump (tag : Tag) (word : Token) : Moves failed .body .body (Statement.jump tag word) :=
  (bodySteps.jump tag word).mono fun _ => False.elim

theorem statement : Moves failed .body .body Statement.statement :=
  bodySteps.statement.mono fun _ => False.elim

/-! Steps into a function and out of it. -/

theorem enterFunction : Moves failed .module .header Declaration.enterFunction := by
  refine .of_built .enterFunction fun within done => ?_
  cases done
  exact ⟨by simp [Scope.enterFunction], by simpa using within.function, within.loopDepth⟩

theorem exitFunction : Moves failed .header .module Declaration.exitFunction := by
  refine .of_built .exitFunction fun within done => ?_
  cases done
  exact ⟨by simp [Scope.exitFunction], by simpa using within.function, within.loopDepth⟩

theorem beginBody (function : Enclosing) :
    Moves failed .header .body (Parse.setEnclosing (some function)) := by
  refine .of_built (.setEnclosing _) fun within done => ?_
  cases done
  exact ⟨by simpa using within.scope, by simp, within.loopDepth⟩

theorem endBody : Moves failed .body .header (Parse.setEnclosing none) := by
  refine .of_built (.setEnclosing _) fun within done => ?_
  cases done
  exact ⟨by simpa using within.scope, by simp, within.loopDepth⟩

theorem parameters : Moves failed .header .header Declaration.parameters :=
  steps.parameters fun _ _ _ => .declareInFunction fun _ => rfl

theorem global : Moves failed .module .module Declaration.global :=
  steps.global declareGlobal

end Moves

end Parse

end ScalarC
