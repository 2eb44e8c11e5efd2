import ScalarC.Proofs.Cursor.Progress

/-!
The bounds of the parsers mean nothing. Whatever is nested or repeated takes a
token at least, so a bound of as many tokens as are left is never used up: a
larger one gives the same result, the error included. Where nothing is left every
bound gives what the end of input does.
-/

namespace ScalarC

open Parse

namespace Parse

variable {α β : Type}

/-- Two parsers that do the same where so few tokens are left. -/
def Same (count : Nat) (parser other : Parse α) : Prop :=
  ∀ state, state.unread.length ≤ count → outcome parser state = outcome other state

namespace Same

variable {count : Nat}

theorem refl (parser : Parse α) : Same count parser parser :=
  fun _ _ => rfl

theorem mono {parser other : Parse α} (same : Same (count + 1) parser other) :
    Same count parser other :=
  fun state short => same state (by omega)

theorem ite {choice : Prop} [Decidable choice] {first second other otherwise : Parse α}
    (holds : Same count first other) (fails : Same count second otherwise) :
    Same count (if choice then first else second) (if choice then other else otherwise) := by
  split
  · exact holds
  · exact fails

theorem bind {first other : Parse α} {next later : α → Parse β} (built : Built first)
    (same : Same count first other) (onward : ∀ value, Same count (next value) (later value)) :
    Same count (first >>= next) (other >>= later) := by
  intro state short
  rw [outcome_bind, outcome_bind, ← same state short]
  cases ran : outcome first state with
  | error => rfl
  | ok found => exact onward found.1 found.2 (Nat.le_trans (built.unread_le ran) short)

theorem after {first : Parse α} {next later : α → Parse β} (built : Built first)
    (onward : ∀ value, Same count (next value) (later value)) :
    Same count (first >>= next) (first >>= later) :=
  bind built (.refl first) onward

theorem behind {first : Parse α} {next later : α → Parse β} (advances : Advances first)
    (onward : ∀ value, Same count (next value) (later value)) :
    Same (count + 1) (first >>= next) (first >>= later) := by
  intro state short
  rw [outcome_bind, outcome_bind]
  cases ran : outcome first state with
  | error => rfl
  | ok found =>
      have fewer := advances _ _ _ ran
      exact onward found.1 found.2 (by omega)

/-- At the end of input, where reading stays, no token is left anyway. -/
theorem advance {next later : Token → Parse β}
    (onward : ∀ token, Same count (next token) (later token)) :
    Same (count + 1) (Parse.advance >>= next) (Parse.advance >>= later) := by
  intro state short
  rw [outcome_bind, outcome_bind]
  cases unread : state.unread with
  | nil =>
      have stays : outcome Parse.advance state = .ok (state.finish, state) := by
        simp [outcome, Parse.advance, unread]
      rw [stays]
      exact onward _ state (by simp [unread])
  | cons token rest =>
      rw [outcome_advance unread]
      exact onward token (state.behind rest) (by simpa [unread] using short)

theorem accept {lexeme : Lexeme} {next later : Bool → Parse β}
    (taken : Same count (next true) (later true))
    (left : Same (count + 1) (next false) (later false)) :
    Same (count + 1) (Parse.accept lexeme >>= next) (Parse.accept lexeme >>= later) := by
  have split (onward : Bool → Parse β) : Parse.accept lexeme >>= onward =
      Parse.peek >>= fun token => if token.toLexeme = lexeme then
        Parse.advance >>= fun _ => onward true else onward false := by
    simp only [Parse.accept, bind_assoc]
    congr 1
    funext token
    split <;> simp
  rw [split, split]
  apply after Built.steps.peek
  intro token
  exact .ite (advance fun _ => taken) left

theorem inLoop {body other : Parse α} (same : Same count body other) :
    Same count (Parse.inLoop body) (Parse.inLoop other) := by
  intro state short
  have within := same { state with loopDepth := state.loopDepth + 1 } short
  rw [outcome_inLoop, outcome_inLoop, within]

theorem onlyIf (wanted : Bool) {parser other : Parse α} (built : Built parser)
    (same : Same count parser other) :
    Same count (Parse.onlyIf wanted parser) (Parse.onlyIf wanted other) :=
  .ite (bind built same fun _ => .refl _) (.refl _)

end Same

/-- Any bound of as many tokens as are left does what the least of them does. -/
def Suffices (within : Nat → Parse α) : Prop :=
  ∀ state bound, state.unread.length ≤ bound →
    outcome (within bound) state = outcome (within state.unread.length) state

def Covered (within : Nat → Parse α) : Prop :=
  ∀ count first second, count ≤ first → count ≤ second →
    Same count (within first) (within second)

theorem Covered.suffices {within : Nat → Parse α} (covered : Covered within) : Suffices within :=
  fun state bound enough => covered _ bound _ enough (Nat.le_refl _) state (Nat.le_refl _)

/-- Bounds agree if all do where nothing is left, and one more takes them a token further. -/
theorem covered_of_steps {within : Nat → Parse α}
    (nothing : ∀ state, state.unread = [] → ∀ bound,
      outcome (within bound) state = outcome (within 0) state)
    (step : ∀ count first second, Same count (within first) (within second) →
      Same (count + 1) (within (first + 1)) (within (second + 1))) : Covered within := by
  intro count
  induction count with
  | zero =>
      intro first second _ _ state short
      have none := List.length_eq_zero_iff.mp (Nat.le_zero.mp short)
      rw [nothing state none first, nothing state none second]
  | succ count ih =>
      intro first second enough also
      obtain ⟨first, rfl⟩ := Nat.exists_eq_add_of_le' (Nat.le_of_add_left_le enough)
      obtain ⟨second, rfl⟩ := Nat.exists_eq_add_of_le' (Nat.le_of_add_left_le also)
      exact step count first second (ih first second (by omega) (by omega))

end Parse

section Ends

/-! Where nothing is left only the end of input comes next, which is no mark. -/

variable {state : State} (nothing : state.unread = [])
include nothing

theorem State.next_ends : state.next.kind = .endOfInput := by
  simpa [State.next, nothing] using state.closes

theorem State.next_not_operator (mark : String) : state.next.toLexeme ≠ .operator mark := by
  intro same
  simpa [same] using State.next_ends nothing

theorem State.next_not_punctuation (mark : String) :
    state.next.toLexeme ≠ .punctuation mark := by
  intro same
  simpa [same] using State.next_ends nothing

end Ends

namespace Expression

variable {parser other : Parse Operand}

/-! The loops of one expression. -/

theorem unary_nothing {state : State} (nothing : state.unread = []) (bound : Nat) :
    outcome (unary parser bound) state = outcome (primary parser) state := by
  cases bound with
  | zero => rfl
  | succ bound =>
      simp [unary, seesCast, State.next_not_operator nothing, State.next_not_punctuation nothing]

theorem unary_covered (built : Built parser) : Covered (unary parser) := by
  apply covered_of_steps
  · intro state nothing bound
    rw [unary_nothing nothing, unary_nothing nothing]
  intro count first second same
  have inner := Built.steps.unary built first
  apply Same.after Built.steps.peek
  intro token
  apply Same.after Built.steps.seesCast
  intro casts
  apply Same.ite
  · exact .advance fun _ => .bind inner same fun _ => .refl _
  apply Same.ite
  · exact .advance fun _ => .bind inner same fun _ => .refl _
  apply Same.ite
  · apply Same.advance
    intro opening
    apply Same.after Built.steps.declaredType
    intro target
    apply Same.after (Built.steps.expectPunctuation _ _)
    intro _
    exact .bind inner same fun _ => .refl _
  · exact .refl _

theorem chain_nothing {state : State} (nothing : state.unread = []) (level : List BinaryOperator)
    (bound : Nat) (left : Operand) :
    outcome (chain level parser bound left) state = .ok (left, state) := by
  have none : BinaryOperator.ofLexeme? level state.next.toLexeme = none := by
    apply List.find?_eq_none.mpr
    intro operator _
    simpa using State.next_not_operator nothing operator.symbol
  cases bound with
  | zero => rfl
  | succ bound => simp [chain, none]

theorem chain_covered (built : Built parser) (level : List BinaryOperator) (left : Operand) :
    Covered fun bound => chain level parser bound left := by
  intro count
  induction count generalizing left with
  | zero =>
      intro first second _ _ state short
      have nothing := List.length_eq_zero_iff.mp (Nat.le_zero.mp short)
      rw [chain_nothing nothing, chain_nothing nothing]
  | succ count ih =>
      intro first second enough also
      obtain ⟨first, rfl⟩ := Nat.exists_eq_add_of_le' (Nat.le_of_add_left_le enough)
      obtain ⟨second, rfl⟩ := Nat.exists_eq_add_of_le' (Nat.le_of_add_left_le also)
      apply Same.after Built.steps.peek
      intro token
      cases BinaryOperator.ofLexeme? level token.toLexeme with
      | none => exact .refl _
      | some operator =>
          apply Same.advance
          intro mark
          apply Same.after built
          intro right
          apply Same.after (Built.ofExcept _)
          intro joined
          exact ih joined first second (by omega) (by omega)

/-! Expressions inside of others, which are read behind a token at least. -/

section Inner

variable {count : Nat} (built : Built parser) (same : Same count parser other)
include built same

theorem typed_same (expected : DataType) (context : String) :
    Same count (typed parser expected context) (typed other expected context) := by
  apply Same.after Built.steps.peek
  intro start
  exact .bind built same fun _ => .refl _

theorem arguments_same (name : String) (position : Nat) (types : List DataType) :
    Same count (arguments parser name position types) (arguments other name position types) := by
  induction types generalizing position with
  | nil => exact .refl _
  | cons type types ih =>
      apply Same.bind (Built.steps.typed built type _) (typed_same built same type _)
      intro argument
      apply Same.after (Built.steps.accept _)
      intro more
      apply Same.ite _ (.refl _)
      exact .bind (Built.steps.arguments built name _ types) (ih _) fun _ => .refl _

theorem call_same : Same (count + 1) (call parser) (call other) := by
  apply Same.advance
  intro name
  apply Same.after .advance
  intro opening
  apply Same.after Built.steps.scope
  intro scope
  apply Same.after (Built.ofExcept _)
  intro signature
  have list := Built.steps.argumentList built name.text signature.parameters
  apply Same.bind list _ fun _ => .refl _
  apply Same.after (Built.steps.sees _)
  intro closed
  exact .ite (.refl _) (arguments_same built same name.text 0 signature.parameters)

theorem primary_same : Same (count + 1) (primary parser) (primary other) := by
  apply Same.after Built.steps.peek
  intro token
  cases token.kind with
  | number => exact .refl _
  | identifier =>
      apply Same.after (Built.steps.seesAhead 1 _)
      intro called
      exact .ite (call_same built same) (.refl _)
  | keyword | operator | punctuation | endOfInput =>
      apply Same.ite _ (.refl _)
      exact .advance fun _ => .bind built same fun _ => .refl _

theorem unary_inner (bound : Nat) : Same (count + 1) (unary parser bound) (unary other bound) := by
  have primaries := primary_same built same
  induction bound with
  | zero => exact primaries
  | succ bound ih =>
      have inner := Built.steps.unary built bound
      apply Same.after Built.steps.peek
      intro token
      apply Same.after Built.steps.seesCast
      intro casts
      apply Same.ite
      · exact .advance fun _ => .bind inner ih.mono fun _ => .refl _
      apply Same.ite
      · exact .advance fun _ => .bind inner ih.mono fun _ => .refl _
      apply Same.ite _ primaries
      apply Same.advance
      intro opening
      apply Same.after Built.steps.declaredType
      intro target
      apply Same.after (Built.steps.expectPunctuation _ _)
      intro _
      exact .bind inner ih.mono fun _ => .refl _

omit built same in
theorem chain_inner (built : Built parser) (same : Same (count + 1) parser other)
    (level : List BinaryOperator) (bound : Nat) (left : Operand) :
    Same (count + 1) (chain level parser bound left) (chain level other bound left) := by
  induction bound generalizing left with
  | zero => exact .refl _
  | succ bound ih =>
      apply Same.after Built.steps.peek
      intro token
      cases BinaryOperator.ofLexeme? level token.toLexeme with
      | none => exact .refl _
      | some operator =>
          apply Same.after .advance
          intro mark
          apply Same.bind built same
          intro right
          exact .after (Built.ofExcept _) fun joined => ih joined

theorem levels_same (table : List (List BinaryOperator)) :
    Same (count + 1) (levels parser table) (levels other table) := by
  induction table with
  | nil => exact .after Built.steps.unreadCount fun bound => unary_inner built same bound
  | cons level tighter ih =>
      have inner := Built.steps.levels built tighter
      apply Same.bind inner ih
      intro left
      exact .after Built.steps.unreadCount fun bound => chain_inner inner ih level bound left

theorem assignment_same (form : Assignment) :
    Same (count + 1) (assignment parser form) (assignment other form) := by
  apply Same.advance
  intro name
  apply Same.after .advance
  intro mark
  apply Same.after Built.steps.scope
  intro scope
  apply Same.after (Built.ofExcept _)
  intro target
  apply Same.ite (.refl _)
  apply Same.bind (Built.steps.storedValue built form target mark.location) _ fun _ => .refl _
  cases form with
  | plain => exact typed_same built same target.type _
  | compound operator =>
      apply Same.after Built.steps.peek
      intro start
      exact .bind built same fun _ => .refl _

end Inner

theorem levels_nothing {state : State} (nothing : state.unread = [])
    (table : List (List BinaryOperator)) :
    outcome (levels parser table) state =
      .error (.malformed (.missingExpression state.next.toLexeme) state.next.location) := by
  induction table with
  | nil =>
      simp [levels, unary_nothing nothing, primary, State.next_ends nothing,
        State.next_not_punctuation nothing]
  | cons level tighter ih => simp [levels, ih]

theorem operandWithin_nothing {state : State} (nothing : state.unread = []) (bound : Nat) :
    outcome (operandWithin bound) state =
      .error (.malformed (.missingExpression state.next.toLexeme) state.next.location) := by
  have ends := State.next_ends nothing
  cases bound with
  | zero => simp [operandWithin]
  | succ bound => simp [operandWithin, assignment?, ends, levels_nothing nothing]

theorem operandWithin_covered : Covered operandWithin := by
  apply covered_of_steps
  · intro state nothing bound
    rw [operandWithin_nothing nothing, operandWithin_nothing nothing]
  intro count first second same
  have inner := Built.steps.operandWithin first
  apply Same.after Built.steps.assignment?
  intro form?
  cases form? with
  | some form => exact assignment_same inner same form
  | none => exact levels_same inner same BinaryOperator.levels

end Expression

namespace Statement

variable {parser other : Parse Node}

theorem sequence_covered (built : Built parser) (advances : Advances parser) :
    Covered (sequence parser) := by
  apply covered_of_steps
  · intro state nothing bound
    cases bound with
    | zero => rfl
    | succ bound => simp [sequence, nothing]
  intro count first second same
  apply Same.after Built.steps.peek
  intro token
  apply Same.after Built.steps.unreadCount
  intro left
  apply Same.ite (.refl _)
  apply Same.behind advances
  intro statement
  exact .bind (Built.steps.sequence built first) same fun _ => .refl _

/-! Statements inside of others, which are read behind a token at least. -/

section Inner

variable {count : Nat} (built : Built parser) (same : Same count parser other)
include built same

theorem block_same : Same count (block parser) (block other) := by
  have sequences (bound : Nat) : Same count (sequence parser bound) (sequence other bound) := by
    induction bound with
    | zero => exact .refl _
    | succ bound ih =>
        apply Same.after Built.steps.peek
        intro token
        apply Same.after Built.steps.unreadCount
        intro left
        apply Same.ite (.refl _)
        apply Same.bind built same
        intro first
        exact .bind (Built.steps.sequence built bound) ih fun _ => .refl _
  apply Same.bind (Built.steps.braced built _) _ fun _ => .refl _
  apply Same.after Built.steps.unreadCount
  intro bound
  exact .bind (Built.steps.sequence built bound) (sequences bound) fun _ => .refl _

theorem body_same : Same count (body parser) (body other) := by
  apply Same.after (Built.steps.accept _)
  intro opened
  exact .ite (block_same built same) (.bind built same fun _ => .refl _)

theorem branches_same : Same count (branches parser) (branches other) := by
  have bodies := body_same built same
  have inner := Built.steps.body built
  apply Same.after (Built.steps.condition _ _)
  intro test
  apply Same.bind inner bodies
  intro chosen
  apply Same.after (Built.steps.accept _)
  intro hasAlternative
  exact .bind (Built.steps.onlyIf hasAlternative inner) (.onlyIf hasAlternative inner bodies)
    fun _ => .refl _

theorem repeatsWhile_same : Same count (repeatsWhile parser) (repeatsWhile other) := by
  apply Same.after (Built.steps.condition _ _)
  intro test
  exact .bind (.inLoop (Built.steps.body built)) (.inLoop (body_same built same)) fun _ => .refl _

theorem repeatsDo_same : Same count (repeatsDo parser) (repeatsDo other) :=
  .bind (.inLoop (Built.steps.body built)) (.inLoop (body_same built same)) fun _ => .refl _

theorem keyword_same (text : String) :
    Same (count + 1) (keyword parser text) (keyword other text) := by
  unfold keyword
  cases StatementWord.ofText? text with
  | none => exact .refl _
  | some word =>
      cases word with
      | alternative | repeatsFor | returns | breaks | continues => exact .refl _
      | branches => exact .advance fun _ => branches_same built same
      | repeatsWhile => exact .advance fun _ => repeatsWhile_same built same
      | repeatsDo => exact .advance fun _ => repeatsDo_same built same

theorem plain_same : Same (count + 1) (plain parser) (plain other) :=
  .accept (block_same built same) (.refl _)

end Inner

theorem statementWithin_nothing {state : State} (nothing : state.unread = []) (bound : Nat) :
    outcome (statementWithin bound) state =
      .error (.malformed (.missingExpression state.next.toLexeme) state.next.location) := by
  cases bound with
  | zero => simp [statementWithin]
  | succ bound =>
      have ends := State.next_ends nothing
      have noBlock := outcome_accept_other (State.next_not_punctuation nothing "\x7b")
      simp [statementWithin, plain, expression, Expression.operand, ends, noBlock,
        Expression.operandWithin_nothing nothing]

theorem statementWithin_covered : Covered statementWithin := by
  apply covered_of_steps
  · intro state nothing bound
    rw [statementWithin_nothing nothing, statementWithin_nothing nothing]
  intro count first second same
  have inner := Built.steps.statementWithin first
  apply Same.after Built.steps.peek
  intro token
  exact .ite (keyword_same inner same token.text) (plain_same inner same)

end Statement

theorem Declaration.parameterList_covered : Covered Declaration.parameterList := by
  apply covered_of_steps
  · intro state nothing bound
    have ends := State.next_ends nothing
    cases bound with
    | zero => rfl
    | succ bound =>
        simp [Declaration.parameterList, declaredType, Lexeme.inTypePosition, Lexeme.isTypeWord,
          ends]
  intro count first second same
  apply Same.after Built.steps.declaredType
  intro type
  apply Same.after Built.steps.expectIdentifier
  intro name
  apply Same.after (.declare _)
  intro _
  apply Same.accept
  · exact .bind (Built.parameterList first) same fun _ => .refl _
  · exact .refl _

theorem Program.declarations_covered : Covered Program.declarations := by
  apply covered_of_steps
  · intro state nothing bound
    cases bound with
    | zero => rfl
    | succ bound => simp [Program.declarations, nothing]
  intro count first second same
  apply Same.after Built.steps.unreadCount
  intro left
  apply Same.ite (.refl _)
  apply Same.behind Declaration.declaration_advances
  intro declaration
  exact .bind (Built.declarations first) same fun _ => .refl _

end ScalarC
