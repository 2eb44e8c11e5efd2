import ScalarC.Parsing.Program

/-!
Outcomes of parsers: the value and the state behind it, or the error alone. A
sequence of parsers is a sequence of outcomes, so a run can be opened step by
step, and a parser that only reads leaves everything but `unread` as it was.
-/

namespace ScalarC

/-- A lexeme as a token, where its place does not matter. -/
def Lexeme.token (lexeme : Lexeme) : Token := ⟨lexeme, Location.start⟩

section Results

variable {α β ε : Type}

theorem bind_eq_ok {result : Except ε α} {next : α → Except ε β} {value : β} :
    (result >>= next) = .ok value ↔ ∃ first, result = .ok first ∧ next first = .ok value := by
  cases result <;> simp [bind, Except.bind]

@[simp] theorem pure_ok (value : α) : (pure value : Except ε α) = .ok value := rfl

@[simp] theorem ok_bind (value : α) (next : α → Except ε β) :
    ((.ok value : Except ε α) >>= next) = next value := rfl

@[simp] theorem error_bind (error : ε) (next : α → Except ε β) :
    ((.error error : Except ε α) >>= next) = .error error := rfl

@[simp] theorem toOption_ok (value : α) : (Except.ok value : Except ε α).toOption = some value :=
  rfl

@[simp] theorem toOption_error (error : ε) : (Except.error error : Except ε α).toOption = none :=
  rfl

theorem toOption_eq_some {result : Except ε α} {value : α} :
    result.toOption = some value ↔ result = .ok value := by
  cases result <;> simp

@[simp] theorem toOption_bind (result : Except ε α) (next : α → Except ε β) :
    (result >>= next).toOption = result.toOption >>= fun value => (next value).toOption := by
  cases result <;> rfl

end Results

namespace State

def next (state : State) : Token := state.unread.headD state.finish

def behind (state : State) (rest : List Token) : State := { state with unread := rest }

@[simp] theorem behind_unread (state : State) (rest : List Token) :
    (state.behind rest).unread = rest := rfl

@[simp] theorem behind_scope (state : State) (rest : List Token) :
    (state.behind rest).scope = state.scope := rfl

@[simp] theorem behind_function (state : State) (rest : List Token) :
    (state.behind rest).function = state.function := rfl

@[simp] theorem behind_loopDepth (state : State) (rest : List Token) :
    (state.behind rest).loopDepth = state.loopDepth := rfl

@[simp] theorem behind_behind (state : State) (first second : List Token) :
    (state.behind first).behind second = state.behind second := rfl

@[simp] theorem behind_self (state : State) : state.behind state.unread = state := rfl

theorem next_cons {state : State} {token : Token} {rest : List Token}
    (unread : state.unread = token :: rest) : state.next = token := by
  simp [next, unread]

@[simp] theorem next_behind_cons (state : State) (token : Token) (rest : List Token) :
    (state.behind (token :: rest)).next = token := rfl

/-- What a parser leaves as it was when it reads these tokens: it may declare names, but
changes neither the function nor the loops around it. -/
structure Passes (before : State) (tokens : List Token) (after : State) : Prop where
  unread : before.unread = tokens ++ after.unread
  function : after.function = before.function
  loopDepth : after.loopDepth = before.loopDepth

/-- Reading that declares nothing either. -/
structure Reads (before : State) (tokens : List Token) (after : State) : Prop
    extends Passes before tokens after where
  scope : after.scope = before.scope

theorem Passes.trans {before middle after : State} {first second : List Token}
    (reads : before.Passes first middle) (goes : middle.Passes second after) :
    before.Passes (first ++ second) after where
  unread := by rw [reads.unread, goes.unread, List.append_assoc]
  function := goes.function.trans reads.function
  loopDepth := goes.loopDepth.trans reads.loopDepth

theorem Reads.refl (state : State) : state.Reads [] state :=
  ⟨⟨rfl, rfl, rfl⟩, rfl⟩

theorem Reads.trans {before middle after : State} {first second : List Token}
    (reads : before.Reads first middle) (goes : middle.Reads second after) :
    before.Reads (first ++ second) after where
  toPasses := reads.toPasses.trans goes.toPasses
  scope := goes.scope.trans reads.scope

theorem Passes.declaring {before after : State} {tokens : List Token}
    (passes : before.Passes tokens after) (scope : Scope) :
    before.Passes tokens { after with scope } :=
  ⟨passes.unread, passes.function, passes.loopDepth⟩

theorem Passes.inLoop {before after : State} {tokens : List Token}
    (passes : { before with loopDepth := before.loopDepth + 1 }.Passes tokens after) :
    before.Passes tokens { after with loopDepth := after.loopDepth - 1 } :=
  ⟨passes.unread, passes.function, by simp [passes.loopDepth]⟩

theorem Passes.inFunction {before after : State} {tokens : List Token} {function : Enclosing}
    (outside : before.function = none)
    (passes : { before with function := some function }.Passes tokens after) :
    before.Passes tokens { after with function := none } :=
  ⟨passes.unread, outside.symm, passes.loopDepth⟩

theorem reads_behind {state : State} {tokens rest : List Token}
    (unread : state.unread = tokens ++ rest) : state.Reads tokens (state.behind rest) :=
  ⟨⟨unread, rfl, rfl⟩, rfl⟩

theorem unread_of_next_kind {state : State} (real : state.next.kind ≠ .endOfInput) :
    ∃ rest, state.unread = state.next :: rest := by
  cases unread : state.unread with
  -- With nothing left the next token is the end of input, which the state closes with.
  | nil => exact absurd state.closes (by simpa [next, unread] using real)
  | cons token rest => exact ⟨rest, by simp [next, unread]⟩

theorem unread_of_ahead {state : State} {test : Token → Bool}
    (ahead : state.unread[1]?.any test = true) :
    ∃ second rest, state.unread = state.next :: second :: rest ∧ test second = true := by
  match unread : state.unread with
  | [] => simp [unread] at ahead
  | [only] => simp [unread] at ahead
  | first :: second :: rest =>
      exact ⟨second, rest, by simp [next, unread], by simpa [unread] using ahead⟩

end State

namespace Parse

variable {α β : Type}

def outcome (parser : Parse α) (state : State) : Except ParseError (α × State) :=
  match parser state with
  | .ok value after => .ok (value, after)
  | .error error _ => .error error

@[simp] theorem outcome_pure (value : α) (state : State) :
    outcome (pure value) state = .ok (value, state) := rfl

@[simp] theorem outcome_bind (first : Parse α) (next : α → Parse β) (state : State) :
    outcome (first >>= next) state =
      outcome first state >>= fun found => outcome (next found.1) found.2 := by
  simp only [outcome, bind, EStateM.bind]
  cases first state <;> rfl

@[simp] theorem outcome_map (change : α → β) (parser : Parse α) (state : State) :
    outcome (change <$> parser) state =
      outcome parser state >>= fun found => .ok (change found.1, found.2) := by
  simp only [outcome, Functor.map, EStateM.map]
  cases parser state <;> rfl

@[simp] theorem outcome_raise (error : ParseError) (state : State) :
    outcome (raise error : Parse α) state = .error error := rfl

@[simp] theorem outcome_ofExcept (result : Except ParseError α) (state : State) :
    outcome (ofExcept result) state = result >>= fun value => .ok (value, state) := by
  cases result <;> rfl

@[simp] theorem outcome_peek (state : State) : outcome peek state = .ok (state.next, state) := rfl

@[simp] theorem outcome_peekAhead (places : Nat) (state : State) :
    outcome (peekAhead places) state = .ok (state.unread[places]?, state) := rfl

@[simp] theorem outcome_unreadCount (state : State) :
    outcome unreadCount state = .ok (state.unread.length, state) := rfl

@[simp] theorem outcome_scope (state : State) :
    outcome scope state = .ok (state.scope, state) := rfl

@[simp] theorem outcome_setScope (scope : Scope) (state : State) :
    outcome (setScope scope) state = .ok ((), { state with scope }) := rfl

@[simp] theorem outcome_enclosing (state : State) :
    outcome enclosing state = .ok (state.function, state) := rfl

@[simp] theorem outcome_setEnclosing (function : Option Enclosing) (state : State) :
    outcome (setEnclosing function) state = .ok ((), { state with function }) := rfl

@[simp] theorem outcome_loopDepth (state : State) :
    outcome loopDepth state = .ok (state.loopDepth, state) := rfl

@[simp] theorem outcome_ite (choice : Prop) [Decidable choice] (first second : Parse α)
    (state : State) :
    outcome (if choice then first else second) state =
      if choice then outcome first state else outcome second state := by
  split <;> rfl

@[simp] theorem outcome_fail (fault : GrammarFault) (state : State) :
    outcome (fail fault : Parse α) state = .error (.malformed fault state.next.location) := rfl

@[simp] theorem outcome_sees (lexeme : Lexeme) (state : State) :
    outcome (sees lexeme) state = .ok (decide (state.next.toLexeme = lexeme), state) := rfl

@[simp] theorem outcome_seesAhead (places : Nat) (lexeme : Lexeme) (state : State) :
    outcome (seesAhead places lexeme) state =
      .ok (state.unread[places]?.any (fun token => token.toLexeme = lexeme), state) := rfl

@[simp] theorem outcome_seesIdentifierAhead (state : State) :
    outcome seesIdentifierAhead state =
      .ok (state.unread[1]?.any (fun token => token.kind = .identifier), state) := rfl

@[simp] theorem outcome_onlyIf (wanted : Bool) (parser : Parse α) (state : State) :
    outcome (onlyIf wanted parser) state =
      if wanted then outcome parser state >>= fun found => .ok ([found.1], found.2)
      else .ok ([], state) := by
  cases wanted <;> simp [onlyIf]

@[simp] theorem outcome_declare (declaration : Scope → Except ParseError (Variable × Scope))
    (state : State) :
    outcome (declare declaration) state =
      declaration state.scope >>= fun declared => .ok ((), { state with scope := declared.2 }) := by
  simp [declare]

@[simp] theorem outcome_inLoop (parser : Parse α) (state : State) :
    outcome (inLoop parser) state =
      outcome parser { state with loopDepth := state.loopDepth + 1 } >>= fun found =>
        .ok (found.1, { found.2 with loopDepth := found.2.loopDepth - 1 }) := by
  simp only [outcome, inLoop]
  cases parser { state with loopDepth := state.loopDepth + 1 } <;> rfl

theorem outcome_advance {state : State} {token : Token} {rest : List Token}
    (unread : state.unread = token :: rest) :
    outcome advance state = .ok (token, state.behind rest) := by
  simp [outcome, advance, unread, State.behind]

theorem outcome_accept {state : State} {lexeme : Lexeme} {token : Token} {rest : List Token}
    (unread : state.unread = token :: rest) (same : token.toLexeme = lexeme) :
    outcome (accept lexeme) state = .ok (true, state.behind rest) := by
  simp [accept, State.next_cons unread, same, outcome_advance unread]

theorem outcome_accept_other {state : State} {lexeme : Lexeme}
    (other : state.next.toLexeme ≠ lexeme) :
    outcome (accept lexeme) state = .ok (false, state) := by
  simp [accept, other]

theorem outcome_expect {state : State} {lexeme : Lexeme} {token : Token} {rest : List Token}
    (unread : state.unread = token :: rest) (same : token.toLexeme = lexeme) (context : String) :
    outcome (expect lexeme context) state = .ok ((), state.behind rest) := by
  simp [expect, State.next_cons unread, same, outcome_advance unread]

/-! What a step has read, from its outcome. -/

theorem advance_reads {state after : State} {token : Token}
    (real : state.next.kind ≠ .endOfInput)
    (done : outcome advance state = .ok (token, after)) :
    token = state.next ∧ state.Reads [token] after := by
  obtain ⟨rest, unread⟩ := State.unread_of_next_kind real
  rw [outcome_advance unread] at done
  cases done
  exact ⟨rfl, State.reads_behind unread⟩

theorem accept_reads {state after : State} {lexeme : Lexeme} {accepted : Bool}
    (real : lexeme.kind ≠ .endOfInput)
    (done : outcome (accept lexeme) state = .ok (accepted, after)) :
    (accepted = true ∧ ∃ token : Token, token.toLexeme = lexeme ∧ state.Reads [token] after) ∨
      (accepted = false ∧ state.next.toLexeme ≠ lexeme ∧ after = state) := by
  by_cases same : state.next.toLexeme = lexeme
  · have present : state.next.kind ≠ .endOfInput := same ▸ real
    obtain ⟨rest, unread⟩ := State.unread_of_next_kind present
    rw [outcome_accept unread same] at done
    cases done
    exact .inl ⟨rfl, state.next, same, State.reads_behind unread⟩
  · rw [outcome_accept_other same] at done
    cases done
    exact .inr ⟨rfl, same, rfl⟩

theorem expect_reads {state after : State} {lexeme : Lexeme} {context : String}
    (real : lexeme.kind ≠ .endOfInput)
    (done : outcome (expect lexeme context) state = .ok ((), after)) :
    ∃ token : Token, token.toLexeme = lexeme ∧ state.Reads [token] after := by
  by_cases same : state.next.toLexeme = lexeme
  · have present : state.next.kind ≠ .endOfInput := same ▸ real
    obtain ⟨rest, unread⟩ := State.unread_of_next_kind present
    rw [outcome_expect unread same] at done
    cases done
    exact ⟨state.next, same, State.reads_behind unread⟩
  · simp [expect, same] at done

theorem expectIdentifier_reads {state after : State} {name : Token}
    (done : outcome expectIdentifier state = .ok (name, after)) :
    name.kind = .identifier ∧ state.Reads [name] after := by
  by_cases named : state.next.kind = .identifier
  · simp only [expectIdentifier, outcome_bind, outcome_peek, ok_bind, outcome_ite, named,
      ↓reduceIte] at done
    obtain ⟨same, reads⟩ := advance_reads (by simp [named]) done
    exact ⟨same ▸ named, reads⟩
  · simp [expectIdentifier, named] at done

end Parse

theorem parse_eq_outcome (tokens : List Token) :
    parse tokens = State.ofTokens tokens >>= fun start =>
      Parse.outcome Program.module start >>= fun found => .ok found.1 := by
  unfold parse
  congr 1
  funext start
  unfold Parse.outcome
  cases Program.module start <;> rfl

end ScalarC
