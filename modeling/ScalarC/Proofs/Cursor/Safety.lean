import ScalarC.Proofs.Cursor.Bounds
import ScalarC.Proofs.Item.Completeness

/-!
The cursor of a parse. A state stands at a place of its stream, which is its end
of input at most; whatever runs there stays inside and does not go back, and what
reads a declaration, a statement or an expression goes forward. A stream that
does not end with its only end of input is refused before anything is read.
-/

namespace ScalarC

open Parse

/-- The cursor of a state is inside of the stream: it points to the next token, and what is left
is the stream from there on, with the end of input in last place. -/
structure State.StandsAt (state : State) (tokens : List Token) (cursor : Nat) : Prop where
  inside : cursor < tokens.length
  next : tokens[cursor]? = some state.next
  left : tokens.drop cursor = state.unread ++ [state.finish]

/-- Streams with one end of input, in last place. -/
def EndsOnce (tokens : List Token) : Prop :=
  ∃ read finish, tokens = read ++ [finish] ∧ Closed read finish

def Parse.GoesForward {α : Type} (parser : Parse α) (tokens : List Token) : Prop :=
  ∀ state cursor value after, state.StandsAt tokens cursor →
    parser state = .ok value after → ∃ behind, cursor < behind ∧ after.StandsAt tokens behind

/-- All states a parse comes to stand in its stream. A part that runs there, with success or
without, leaves the cursor where it was or further on. -/
structure Program.Safe (tokens : List Token) (start : State) : Prop where
  begins : start.StandsAt tokens 0
  inside : ∀ {α : Type} {part : Parse α} {state : State},
    Part Program.module start part state → ∃ cursor, state.StandsAt tokens cursor
  onward : ∀ {α : Type} {part : Parse α} {state : State} {cursor : Nat},
    Part Program.module start part state → state.StandsAt tokens cursor →
      ∃ behind, cursor ≤ behind ∧ (final part state).StandsAt tokens behind
  declaration : Declaration.declaration.GoesForward tokens
  statement : Statement.statement.GoesForward tokens
  operand : Expression.operand.GoesForward tokens
  ends : ∀ tree after, Program.module start = .ok tree after →
    after.StandsAt tokens (tokens.length - 1)

/-- Each parser with a bound needs no more than one for every token left. -/
structure Program.Bounded : Prop where
  operand : Suffices Expression.operandWithin
  unary : ∀ within, Suffices (Expression.unary (Expression.operandWithin within))
  chain : ∀ within level tighter left, Suffices fun bound =>
    Expression.chain level (Expression.levels (Expression.operandWithin within) tighter) bound left
  statement : Suffices Statement.statementWithin
  sequence : ∀ within, Suffices (Statement.sequence (Statement.statementWithin within))
  parameterList : Suffices Declaration.parameterList
  declarations : Suffices Program.declarations

namespace State

theorem standsAt_of_left {state : State} {tokens : List Token} (read : List Token)
    (whole : tokens = read ++ state.unread ++ [state.finish]) :
    state.StandsAt tokens read.length := by
  have left : tokens.drop read.length = state.unread ++ [state.finish] := by simp [whole]
  refine ⟨by simp [whole], ?_, left⟩
  have head : (tokens.drop read.length)[0]? = some state.next := by
    rw [left]
    cases unread : state.unread <;> simp [next, unread]
  simpa using head

theorem StandsAt.onward {state after : State} {tokens : List Token} {cursor : Nat}
    (stands : state.StandsAt tokens cursor) (onward : state.Onward after) :
    ∃ read, after.StandsAt tokens (cursor + read) ∧
      state.unread.length = read + after.unread.length := by
  obtain ⟨read, unread⟩ := onward.unread
  have whole : tokens = tokens.take cursor ++ read ++ after.unread ++ [after.finish] := by
    conv_lhs => rw [← List.take_append_drop cursor tokens, stands.left, ← unread, ← onward.finish]
    simp
  have length : (tokens.take cursor ++ read).length = cursor + read.length := by
    simp [Nat.le_of_lt stands.inside]
  exact ⟨read.length, length ▸ standsAt_of_left _ whole, by simp [← unread]⟩

theorem ofTokens_malformed {tokens : List Token} {error : ParseError}
    (refused : State.ofTokens tokens = .error error) :
    ∃ fault place, error = .malformed fault place := by
  unfold State.ofTokens at refused
  split at refused
  · cases refused
    exact ⟨_, _, rfl⟩
  split at refused
  · cases refused
    exact ⟨_, _, rfl⟩
  split at refused
  · cases refused
  · cases refused
    exact ⟨_, _, rfl⟩

end State

theorem Parse.Advances.goesForward {α : Type} {parser : Parse α} (advances : Advances parser)
    (built : Built parser) (tokens : List Token) : parser.GoesForward tokens := by
  intro state cursor value after stands done
  have onward := built.onward state
  rw [final_of_ok done] at onward
  obtain ⟨read, further, count⟩ := stands.onward onward
  have fewer := advances _ _ _ (outcome_eq_ok.mpr done)
  exact ⟨cursor + read, by omega, further⟩

namespace Program

theorem declarations_end {bound : Nat} {state after : State} {nodes : List Node}
    (enough : state.unread.length ≤ bound)
    (done : outcome (declarations bound) state = .ok (nodes, after)) : after.unread = [] := by
  induction bound generalizing state nodes with
  | zero =>
      cases done
      exact List.length_eq_zero_iff.mp (Nat.le_zero.mp enough)
  | succ bound ih =>
      simp only [declarations, outcome_bind, outcome_unreadCount, ok_bind, outcome_ite,
        outcome_pure] at done
      split at done
      · rename_i empty
        cases done
        exact List.length_eq_zero_iff.mp empty
      · simp only [bind_eq_ok, Prod.exists, Except.ok.injEq, Prod.mk.injEq] at done
        obtain ⟨node, middle, first, others, _, rest, rfl, rfl⟩ := done
        have fewer := Declaration.declaration_advances _ _ _ first
        exact ih (by omega) rest

theorem module_ends {start after : State} {tree : Node}
    (done : Program.module start = .ok tree after) : after.unread = [] := by
  have done := outcome_eq_ok.mpr done
  simp only [Program.module, outcome_bind, outcome_unreadCount, ok_bind, bind_eq_ok, outcome_pure,
    Prod.exists, Except.ok.injEq, Prod.mk.injEq] at done
  obtain ⟨children, _, ran, rfl, rfl⟩ := done
  exact declarations_end (Nat.le_refl _) ran

theorem safe_of_ofTokens {tokens : List Token} {start : State}
    (begun : State.ofTokens tokens = .ok start) : Safe tokens start := by
  have whole := (State.ofTokens_eq_ok begun).1
  have begins : start.StandsAt tokens 0 := State.standsAt_of_left [] (by simpa using whole)
  refine ⟨begins, ?_, ?_, ?_, ?_, ?_, ?_⟩
  · intro _ part state is
    obtain ⟨read, stands, _⟩ := begins.onward (is.onward Built.module).2
    exact ⟨_, stands⟩
  · intro _ part state cursor is stands
    obtain ⟨read, further, _⟩ := stands.onward ((is.onward Built.module).1.onward state)
    exact ⟨cursor + read, by omega, further⟩
  · exact Declaration.declaration_advances.goesForward Built.declaration tokens
  · exact Statement.statement_advances.goesForward Built.steps.statement tokens
  · exact Expression.operand_advances.goesForward Built.steps.operand tokens
  · intro tree after done
    have onward := Built.module.onward start
    rw [final_of_ok done] at onward
    obtain ⟨read, stands, count⟩ := begins.onward onward
    have last : 0 + read = tokens.length - 1 := by
      rw [module_ends done] at count
      simp [whole, count]
    exact last ▸ stands

theorem bounded : Bounded where
  operand := Expression.operandWithin_covered.suffices
  unary within := (Expression.unary_covered (Built.steps.operandWithin within)).suffices
  chain within level tighter left :=
    have built := Built.steps.levels (Built.steps.operandWithin within) tighter
    (Expression.chain_covered built level left).suffices
  statement := Statement.statementWithin_covered.suffices
  sequence within :=
    (Statement.sequence_covered (Built.steps.statementWithin within)
      (Statement.statementWithin_advances within)).suffices
  parameterList := Declaration.parameterList_covered.suffices
  declarations := declarations_covered.suffices

end Program

/-- A stream without its only end of input in last place is malformed. On every other one the
cursor stays inside of the stream, does not go back, goes forward with each declaration, statement
and expression, and stands at the end of input when the parse has succeeded; and no parser needs a
larger bound than the number of tokens left. -/
theorem parse_stays_inside (tokens : List Token) :
    (¬ EndsOnce tokens → ∃ fault place, parse tokens = .error (.malformed fault place)) ∧
      (EndsOnce tokens → ∃ start, State.ofTokens tokens = .ok start ∧ Program.Safe tokens start) ∧
      Program.Bounded := by
  refine ⟨fun open_ => ?_, ?_, Program.bounded⟩
  · cases begun : State.ofTokens tokens with
    | ok start =>
        obtain ⟨whole, closed, _⟩ := State.ofTokens_eq_ok begun
        exact absurd ⟨_, _, whole, closed⟩ open_
    | error error =>
        obtain ⟨fault, place, rfl⟩ := State.ofTokens_malformed begun
        exact ⟨fault, place, by simp [parse, begun]⟩
  · rintro ⟨read, finish, rfl, closed⟩
    have begun := State.ofTokens_closed closed.1 closed.2
    exact ⟨_, begun, Program.safe_of_ofTokens begun⟩

section Sample

def Program.declared : List Token :=
  [⟨.keyword "int", ⟨1, 1⟩⟩, ⟨⟨.identifier, "a"⟩, ⟨1, 5⟩⟩, ⟨.punctuation ";", ⟨1, 6⟩⟩,
    ⟨.endOfInput, ⟨1, 7⟩⟩]

theorem Program.declared_stays_inside :
    (∃ fault place, parse [] = .error (.malformed fault place)) ∧
      EndsOnce declared ∧ (∃ tree, parse declared = .ok tree) ∧
      ∃ start, State.ofTokens declared = .ok start ∧ Program.Safe declared start := by
  have unended : ¬ EndsOnce [] := by simp [EndsOnce]
  have ends : EndsOnce declared := ⟨declared.dropLast, ⟨.endOfInput, ⟨1, 7⟩⟩, rfl, rfl, by decide⟩
  exact ⟨(parse_stays_inside []).1 unended, ends, ⟨_, rfl⟩, (parse_stays_inside declared).2.1 ends⟩

end Sample

end ScalarC
