import Mathlib.Logic.Function.Basic
import ScalarC.Proofs.Command.Soundness
import ScalarC.Proofs.Cursor.Bounds
import ScalarC.Proofs.Cursor.Surroundings

/-!
Calls. A parser is given the parsers it calls instead of having them in it, and
does the same as before when these are its own. Which of its calls it comes to,
and in what state, is then told by changing what is called. No parser goes on
behind an error, so a call is made in a state just where failing there is
failing as a whole.
-/

namespace ScalarC

namespace Parse

/-- Run in `state`, a parser comes to call its part in `entered`: any other part that fails there,
and is the same in all other states, makes the whole fail with the same error and the same tokens
left. -/
def Enters {α β : Type} (whole : Parse α → Parse β) (part : Parse α) (state entered : State) :
    Prop :=
  ∀ (other : Parse α) (error : ParseError) (left : State),
    (∀ apart, apart ≠ entered → other apart = part apart) → other entered = .error error left →
      ∃ after, whole other state = .error error after ∧ after.unread = left.unread

namespace Enters

variable {α β γ : Type} {whole : Parse α → Parse β} {part : Parse α} {state entered : State}

theorem fails (enters : Enters whole part state entered) {error : ParseError}
    (failed : outcome part entered = .error error) : outcome (whole part) state = .error error := by
  cases ran : part entered with
  | ok value left => simp [outcome, ran] at failed
  | error same left =>
      obtain rfl : same = error := by simpa [outcome, ran] using failed
      obtain ⟨after, done, _⟩ := enters part same left (fun _ _ => rfl) ran
      simp [outcome, done]

theorem here : Enters (fun other : Parse α => other) part entered entered :=
  fun _ _ left _ failed => ⟨left, failed, rfl⟩

theorem first {next : Parse α → β → Parse γ} (enters : Enters whole part state entered) :
    Enters (fun other => whole other >>= next other) part state entered := by
  intro other error left same failed
  obtain ⟨after, done, kept⟩ := enters other error left same failed
  exact ⟨after, by simp [Bind.bind, EStateM.bind, done], kept⟩

theorem behind {parser : Parse β} {next : Parse α → β → Parse γ} {value : β} {middle : State}
    (done : parser state = .ok value middle)
    (enters : Enters (fun other => next other value) part middle entered) :
    Enters (fun other => parser >>= next other) part state entered := by
  intro other error left same failed
  obtain ⟨after, further, kept⟩ := enters other error left same failed
  exact ⟨after, by simp only [Bind.bind, EStateM.bind, done, further], kept⟩

theorem ite_neg {choice : Prop} [Decidable choice] {chosen : Parse α → Parse β} (fails : ¬choice)
    (enters : Enters whole part state entered) :
    Enters (fun other => if choice then chosen other else whole other) part state entered := by
  simpa only [if_neg fails] using enters

theorem inLoop
    (enters : Enters whole part { state with loopDepth := state.loopDepth + 1 } entered) :
    Enters (fun other => Parse.inLoop (whole other)) part state entered := by
  intro other error left same failed
  obtain ⟨after, done, kept⟩ := enters other error left same failed
  exact ⟨{ after with loopDepth := after.loopDepth - 1 }, by simp only [Parse.inLoop, done], kept⟩

theorem congr {also : Parse α → Parse β} (enters : Enters whole part state entered)
    (same : ∀ other, also other state = whole other state) : Enters also part state entered := by
  intro other error left apart failed
  rw [same]
  exact enters other error left apart failed

/-- What a whole fails for holds where its part is called. -/
theorem holds {failed : Nat → Prop} {place behind first last : Surrounding} {loops : Nat}
    (enters : Enters whole part state entered) (within : state.Within first loops)
    (moves : Moves (fun _ => False) place behind part)
    (outside : ∀ other, Moves (entered.Within place) place behind other →
      Moves failed first last (whole other)) : failed loops := by
  classical
  -- The part fails with more tokens left than there are, which no run from `state` leaves.
  let left : State := { state with unread := state.next :: state.unread }
  let error : ParseError := .unknownType "" Location.start
  let other : Parse α := Function.update part entered (.error error left)
  have apart (elsewhere : State) (other_ : elsewhere ≠ entered) :
      other elsewhere = part elsewhere := Function.update_of_ne other_ _ _
  have fails : other entered = .error error left := Function.update_self _ _ _
  have called : Moves (entered.Within place) place behind other := by
    constructor
    · intro loops before after value within done
      by_cases here : before = entered
      · rw [here, fails] at done
        cases done
      · exact moves.ok within (apart before here ▸ done)
    · intro loops before after error within done
      by_cases here : before = entered
      · exact .inl (here ▸ within)
      · exact (moves.error within (apart before here ▸ done)).imp_left False.elim
  obtain ⟨after, done, kept⟩ := enters other error left apart fails
  refine ((outside other called).error within done).resolve_right fun read => ?_
  have longer := read.length_le
  rw [kept] at longer
  exact Nat.not_succ_le_self _ longer

end Enters

end Parse

open Parse

/-! Statements and expressions, each given those inside of it. -/

namespace Statement

def step (statement : Parse Node) : Parse Node := do
  let token ← Parse.peek
  if token.kind = .keyword then keyword statement token.text
  else plain statement

theorem step_eq (statement : Parse Node) (state : State) :
    step statement state =
      if state.next.kind = .keyword then keyword statement state.next.text state
      else plain statement state := by
  change (if state.next.kind = .keyword then _ else _ : Parse Node) state = _
  split <;> rfl

def whileOf (test repeated : Parse Node) : Parse Node := do
  let test ← test
  let repeated ← Parse.inLoop repeated
  return ⟨.whileLoop, none, none, [test, repeated]⟩

def doOf (repeated test : Parse Node) : Parse Node := do
  let repeated ← Parse.inLoop repeated
  Parse.expect (.keyword "while") "after do body"
  let test ← test
  Parse.expectPunctuation ";" "after do-while"
  return ⟨.doLoop, none, none, [repeated, test]⟩

/-- A statement has read a token when it comes to those inside of it. -/
theorem step_same {count : Nat} {parser other : Parse Node} (built : Built parser)
    (same : Same count parser other) : Same (count + 1) (step parser) (step other) := by
  apply Same.after Built.steps.peek
  intro token
  exact .ite (keyword_same built same token.text) (plain_same built same)

/-- A statement is one whose inner statements are statements, whatever bounds them. -/
theorem statement_step (state : State) :
    outcome statement state = outcome (step statement) state := by
  have inner : Same state.unread.length (statementWithin state.unread.length) statement :=
    fun behind short => statementWithin_covered.suffices behind _ short
  have stepped := step_same (Built.steps.statementWithin state.unread.length) inner
  calc
    outcome statement state = outcome (statementWithin (state.unread.length + 1)) state :=
      (statementWithin_covered.suffices state _ (Nat.le_succ _)).symm
    _ = outcome (step statement) state := stepped state (Nat.le_succ _)

end Statement

namespace Expression

def step (operand : Parse Operand) : Parse Operand := do
  let form? ← assignment?
  match form? with
  | some form => assignment operand form
  | none => levels operand BinaryOperator.levels

theorem operand_step (state : State) : outcome operand state = outcome (step operand) state := by
  have inner : Same state.unread.length (operandWithin state.unread.length) operand :=
    fun behind short => operandWithin_covered.suffices behind _ short
  have built := Built.steps.operandWithin state.unread.length
  have stepped : Same (state.unread.length + 1) (step (operandWithin state.unread.length))
      (step operand) := by
    apply Same.after Built.steps.assignment?
    intro form?
    cases form? with
    | some form => exact assignment_same built inner form
    | none => exact levels_same built inner _
  calc
    outcome operand state = outcome (operandWithin (state.unread.length + 1)) state :=
      (operandWithin_covered.suffices state _ (Nat.le_succ _)).symm
    _ = outcome (step operand) state := stepped state (Nat.le_succ _)

end Expression

/-! A function, given what it calls, and the module it stands in. -/

namespace Declaration

/-- What a function calls: the two ends of its scope, and what is parsed between them. -/
structure Parts where
  enter : Parse Unit
  given : Parse (List (String × DataType))
  statement : Parse Node
  leave : Parse Unit

def parts : Parts where
  enter := enterFunction
  given := parameters
  statement := Statement.statement
  leave := exitFunction

namespace Parts

def functionBody (parts : Parts) (enclosing : Enclosing) : Parse (List Node) := do
  Parse.setEnclosing (some enclosing)
  Parse.expectPunctuation "\x7b" "before function body"
  let statements ← Statement.braced parts.statement "after function body"
  Parse.setEnclosing none
  return statements

def function (parts : Parts) : Parse Node := do
  let type ← returnType
  let name ← Parse.expectIdentifier
  Parse.expectPunctuation "(" "after function name"
  parts.enter
  let given ← parts.given
  Parse.expectPunctuation ")" "after parameters"
  declareFunction name ⟨type, given.map Prod.snd⟩
  let statements ← parts.functionBody ⟨name.text, type⟩
  parts.leave
  return ⟨.function, some (.name name.text), type,
    [⟨.parameters, none, none, given.map parameterNode⟩, ⟨.body, none, none, statements⟩]⟩

def declaration (parts : Parts) : Parse Node := do
  let token ← Parse.peek
  let isFunction ← Parse.seesAhead 2 (.punctuation "(")
  if token.isStatementWord then
    Parse.fail (.statementOutsideFunction token.toLexeme)
  else if token.toLexeme = .keyword "const" then global
  else if isFunction then parts.function
  else global

end Parts

end Declaration

namespace Program

def declarationsOf (declaration : Parse Node) : Nat → Parse (List Node)
  | 0 => return []
  | bound + 1 => do
      let left ← Parse.unreadCount
      if left = 0 then return []
      else do
        let first ← declaration
        let others ← declarationsOf declaration bound
        return first :: others

def moduleOf (declaration : Parse Node) : Parse Node := do
  let bound ← Parse.unreadCount
  let children ← declarationsOf declaration bound
  return ⟨.module, none, none, children⟩

theorem module_eq : Program.module = moduleOf Declaration.declaration := by
  have same (bound : Nat) : declarations bound = declarationsOf Declaration.declaration bound := by
    induction bound with
    | zero => rfl
    | succ bound ih => simp only [declarations, declarationsOf, ih]
  simp only [Program.module, moduleOf, same]

end Program

def Declaration.Parts.module (parts : Parts) : Parse Node :=
  Program.moduleOf parts.declaration

/-- How many loops a statement is that opens with a lexeme. -/
def Lexeme.loops (lexeme : Lexeme) : Nat :=
  if lexeme = .keyword "while" ∨ lexeme = .keyword "do" then 1 else 0

/-! Where what is given moves from one surrounding to another, so does the whole. What is given may
fail in its own surrounding. -/

namespace Parse.Moves

variable {failed : Nat → Prop}

section Loop

variable {within : Nat → Prop} {test repeated : Parse Node}

theorem whileOf (tests : Moves failed .body .body test)
    (repeats : Moves within .body .body repeated)
    (deeper : ∀ loops, within (loops + 1) → failed loops) :
    Moves failed .body .body (Statement.whileOf test repeated) := by
  apply tests.bind
  intro test
  exact (repeats.inLoop deeper).bind fun repeated => steps.pure _

theorem doOf (repeats : Moves within .body .body repeated) (tests : Moves failed .body .body test)
    (deeper : ∀ loops, within (loops + 1) → failed loops) :
    Moves failed .body .body (Statement.doOf repeated test) := by
  apply (repeats.inLoop deeper).bind
  intro repeated
  apply (steps.expect _ _).bind
  intro _
  apply tests.bind
  intro test
  exact (steps.expectPunctuation _ _).bind fun _ => steps.pure _

end Loop

section Statement

variable {statement : Parse Node} (inner : Moves failed .body .body statement)
include inner

theorem keyword (text : String) :
    Moves (fun loops => failed (loops + (Lexeme.keyword text).loops)) .body .body
      (Statement.keyword statement text) := by
  unfold Statement.keyword
  by_cases isWhile : text = "while"
  · subst isWhile
    exact steps.advance.bind fun _ => whileOf (steps.condition _ _) (steps.body inner) fun _ => id
  by_cases isDo : text = "do"
  · subst isDo
    exact steps.advance.bind fun _ => doOf (steps.body inner) (steps.condition _ _) fun _ => id
  have once : (Lexeme.keyword text).loops = 0 := by simp [Lexeme.loops, isWhile, isDo]
  rw [once]
  cases is : StatementWord.ofText? text with
  | none => exact ite_made (steps.fail nofun) localDeclaration
  | some word =>
      cases word with
      | alternative | repeatsFor => exact steps.fail nofun
      | returns => exact steps.advance.bind fun token => steps.returns token.location
      | branches => exact steps.advance.bind fun _ => steps.branches inner
      | repeatsWhile => exact absurd (StatementWord.ofText?_eq_some is) isWhile
      | repeatsDo => exact absurd (StatementWord.ofText?_eq_some is) isDo
      | breaks | continues => exact steps.advance.bind fun token => jump _ token

theorem plain : Moves failed .body .body (Statement.plain statement) := by
  apply (steps.accept _).bind
  intro isBlock
  apply ite_made (steps.block inner)
  apply steps.peek.bind
  intro token
  apply steps.seesIdentifierAhead.bind
  intro named
  exact ite_made localDeclaration steps.expression

end Statement

theorem moduleOf {declaration : Parse Node} (inner : Moves failed .module .module declaration) :
    Moves failed .module .module (Program.moduleOf declaration) := by
  have declarations (bound : Nat) :
      Moves failed .module .module (Program.declarationsOf declaration bound) := by
    induction bound with
    | zero => exact steps.pure _
    | succ bound ih =>
        apply steps.unreadCount.bind
        intro left
        apply ite_made (steps.pure _)
        apply inner.bind
        intro first
        exact ih.bind fun others => steps.pure _
  apply steps.unreadCount.bind
  intro bound
  exact (declarations bound).bind fun children => steps.pure _

end Parse.Moves

/-- Parts that move into the scope of a function, on in its parameters and its body, and out. -/
structure Declaration.Parts.Move (parts : Parts) (failed : Nat → Prop) : Prop where
  enter : Moves failed .module .header parts.enter
  given : Moves failed .header .header parts.given
  statement : Moves failed .body .body parts.statement
  leave : Moves failed .header .module parts.leave

namespace Declaration.Parts

theorem move (failed : Nat → Prop) : parts.Move failed :=
  ⟨.enterFunction, .parameters, .statement, .exitFunction⟩

variable {parts : Parts} {failed : Nat → Prop} (move : parts.Move failed)
include move

theorem Move.functionBody (enclosing : Enclosing) :
    Moves failed .header .header (parts.functionBody enclosing) := by
  apply (Moves.beginBody enclosing).bind
  intro _
  apply (Moves.steps.expectPunctuation _ _).bind
  intro _
  apply (Moves.steps.braced move.statement _).bind
  intro statements
  exact Moves.endBody.bind fun _ => Moves.steps.pure _

theorem Move.function : Moves failed .module .module parts.function := by
  apply Moves.steps.returnType.bind
  intro type
  apply Moves.steps.expectIdentifier.bind
  intro name
  apply (Moves.steps.expectPunctuation _ _).bind
  intro _
  apply move.enter.bind
  intro _
  apply move.given.bind
  intro given
  apply (Moves.steps.expectPunctuation _ _).bind
  intro _
  apply (Moves.declareFunction name _).bind
  intro _
  apply (move.functionBody _).bind
  intro statements
  exact move.leave.bind fun _ => Moves.steps.pure _

theorem Move.declaration : Moves failed .module .module parts.declaration := by
  apply Moves.steps.peek.bind
  intro token
  apply (Moves.steps.seesAhead 2 _).bind
  intro isFunction
  apply ite_made
  · exact Moves.steps.fail nofun
  apply ite_made Moves.global
  exact ite_made move.function Moves.global

theorem Move.module : Moves failed .module .module parts.module :=
  .moduleOf move.declaration

end Declaration.Parts

theorem Declaration.declaration_eq : declaration = parts.declaration := by
  have same : function = parts.function := by
    simp only [function, Parts.function, functionBody, Parts.functionBody, parts]
  simp only [declaration, Parts.declaration, same]

theorem Parse.Moves.declaration {failed : Nat → Prop} :
    Moves failed .module .module Declaration.declaration := by
  rw [Declaration.declaration_eq]
  exact (Declaration.Parts.move failed).declaration

/-! What surrounds a call, by what surrounds the caller. -/

section Calls

variable {place : Surrounding} {loops : Nat} {state entered : State}

/-- Whatever a statement opens with decides how far in its inner statements are. -/
theorem Statement.step_within (within : state.Within .body loops)
    (enters : Enters step statement state entered) :
    entered.Within .body (loops + state.next.loops) := by
  by_cases word : state.next.kind = .keyword
  · have is : state.next.toLexeme = .keyword state.next.text :=
      congrArg (Lexeme.mk · state.next.text) word
    have stepped : Enters (keyword · state.next.text) statement state entered :=
      enters.congr fun other => by rw [step_eq, if_pos word]
    have held := stepped.holds within .statement fun other called => called.keyword state.next.text
    rwa [← is] at held
  · have stepped : Enters plain statement state entered :=
      enters.congr fun other => by rw [step_eq, if_neg word]
    have once : state.next.loops = 0 := by
      refine if_neg ?_
      rintro (is | is) <;> simp [is] at word
    rw [once]
    exact stepped.holds within .statement fun other called => called.plain

theorem Expression.step_within (within : state.Within place loops)
    (enters : Enters step operand state entered) : entered.Within place loops := by
  have stepped (other : Parse Operand) (called : Moves (entered.Within place) place place other) :
      Moves (entered.Within place) place place (step other) := by
    apply Moves.steps.assignment?.bind
    intro form?
    cases form? with
    | some form => exact Moves.steps.assignment called form
    | none => exact Moves.steps.levels called _
  exact enters.holds within Moves.steps.operand stepped

end Calls

end ScalarC
