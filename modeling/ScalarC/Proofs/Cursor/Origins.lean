import ScalarC.Proofs.Cursor.Calls

/-!
Where a stray jump is refused. Jumps alone raise that error, and no parser goes on
behind one, so a run that fails for it has come to a statement that does. Each is
nearer to the end than the one around it, and the last of them is the jump.
-/

namespace ScalarC

open Parse ParseError

namespace Parse

/-- A parser that refuses no stray jump. -/
def Spares {α : Type} (parser : Parse α) : Prop :=
  ∀ state error, outcome parser state = .error error → ¬ error.IsStray

namespace Spares

variable {α β : Type}

theorem bind {first : Parse α} {next : α → Parse β} (spares : Spares first)
    (onward : ∀ value, Spares (next value)) : Spares (first >>= next) := by
  intro state error failed
  rw [outcome_bind] at failed
  cases ran : outcome first state with
  | error raised =>
      rw [ran] at failed
      cases failed
      exact spares _ _ ran
  | ok found =>
      rw [ran] at failed
      exact onward _ _ _ failed

theorem steps : Steps @Spares where
  look _ _ _ := nofun
  raise other _ _ failed := by
    cases failed
    exact other
  advance state _ failed := by
    cases unread : state.unread <;> simp [outcome, Parse.advance, unread] at failed
  bind := bind

theorem setScope (scope : Scope) : Spares (Parse.setScope scope) :=
  fun _ _ => nofun

theorem setEnclosing (function : Option Enclosing) : Spares (Parse.setEnclosing function) :=
  fun _ _ => nofun

theorem declare {declaration : Scope → Except ParseError (Variable × Scope)}
    {good : Scope → Variable × Scope → Prop}
    (declares : ∀ scope, Admissible (¬ ·.IsStray) (good scope) (declaration scope)) :
    Spares (Parse.declare declaration) := by
  apply steps.scope.bind
  intro scope
  exact (steps.ofExcept (declares scope)).bind fun _ => setScope _

theorem declareInFunction {declaration : Scope → Except ParseError (Variable × Scope)}
    {declared : Variable} {place : Location}
    (inFunction : ∀ scope, declaration scope = scope.declareInFunction declared place) :
    Spares (Parse.declare declaration) := by
  have declares (scope : Scope) :
      Admissible (¬ ·.IsStray) (fun _ => True) (declaration scope) := by
    rw [inFunction, Scope.declareInFunction]
    split
    · rintro ⟨⟩
    · split
      · rintro ⟨⟩
      · trivial
  exact declare declares

theorem localDeclaration : Spares Statement.localDeclaration :=
  steps.localDeclaration fun _ _ _ => declareInFunction fun _ => rfl

theorem global : Spares Declaration.global :=
  steps.global fun _ _ _ _ => declare fun scope =>
    scope.declareGlobal_admissible IsSemantic.not_isStray ..

theorem parameters : Spares Declaration.parameters :=
  steps.parameters fun _ _ _ => declareInFunction fun _ => rfl

theorem declareFunction (name : Token) (signature : Signature) :
    Spares (Declaration.declareFunction name signature) := by
  apply steps.scope.bind
  intro scope
  have declares := scope.declareFunction_admissible IsSemantic.not_isStray
  exact (steps.ofExcept (declares ..)).bind fun _ => setScope _

theorem enterFunction : Spares Declaration.enterFunction :=
  steps.scope.bind fun _ => setScope _

theorem exitFunction : Spares Declaration.exitFunction :=
  steps.scope.bind fun _ => setScope _

end Spares

/-- A parser that refuses a stray jump only where its part does, in a state it comes to it in. As
long as its part succeeds in the same way, it does. -/
structure Traces {α β : Type} (part : Parse α) (whole : Parse α → Parse β) : Prop where
  ok : ∀ {other : Parse α} {state after : State} {value : β},
    (∀ before found left, part before = .ok found left → other before = .ok found left) →
      whole part state = .ok value after → whole other state = .ok value after
  error : ∀ {state : State} {error : ParseError}, error.IsStray →
    outcome (whole part) state = .error error →
      ∃ entered, Enters whole part state entered ∧ outcome part entered = .error error

namespace Traces

variable {α β γ : Type} {part : Parse α} {whole also : Parse α → Parse β}

theorem self : Traces part fun other => other where
  ok same done := same _ _ _ done
  error _ failed := ⟨_, .here, failed⟩

theorem of_spares {parser : Parse β} (spares : Spares parser) : Traces part fun _ => parser where
  ok _ done := done
  error stray failed := absurd stray (spares _ _ failed)

theorem pure (value : β) : Traces part fun _ => (Pure.pure value : Parse β) :=
  of_spares (Spares.steps.pure value)

theorem bind {next : Parse α → β → Parse γ} (first : Traces part whole)
    (onward : ∀ value, Traces part fun other => next other value) :
    Traces part fun other => whole other >>= next other := by
  constructor
  · intro other state after value same done
    simp only [Bind.bind, EStateM.bind] at done ⊢
    cases ran : whole part state with
    | error error left => simp [ran] at done
    | ok found middle =>
        rw [ran] at done
        rw [first.ok same ran]
        exact (onward found).ok same done
  · intro state error stray failed
    rw [outcome_bind] at failed
    cases ran : outcome (whole part) state with
    | error raised =>
        rw [ran] at failed
        cases failed
        obtain ⟨entered, enters, fails⟩ := first.error stray ran
        exact ⟨entered, enters.first, fails⟩
    | ok found =>
        rw [ran] at failed
        obtain ⟨entered, enters, fails⟩ := (onward found.1).error stray failed
        refine ⟨entered, ?_, fails⟩
        intro other raised left same failing
        obtain ⟨after, done, kept⟩ := enters other raised left same failing
        -- Whatever the part does where it fails, the first parser has come through without that.
        have through : whole other state = .ok found.1 found.2 := by
          refine first.ok (fun before value left does => ?_) (outcome_eq_ok.mp ran)
          rw [same before ?_, does]
          rintro rfl
          simp [outcome, does] at fails
        exact ⟨after, by simp only [Bind.bind, EStateM.bind, through, done], kept⟩

theorem behind {parser : Parse β} {next : Parse α → β → Parse γ} (spares : Spares parser)
    (onward : ∀ value, Traces part fun other => next other value) :
    Traces part fun other => parser >>= next other :=
  bind (of_spares spares) onward

theorem ite {choice : Prop} [Decidable choice] (holds : Traces part whole)
    (fails : Traces part also) :
    Traces part fun other => if choice then whole other else also other := by
  by_cases chosen : choice
  · simpa only [if_pos chosen] using holds
  · simpa only [if_neg chosen] using fails

theorem onlyIf (wanted : Bool) (traces : Traces part whole) :
    Traces part fun other => Parse.onlyIf wanted (whole other) :=
  .ite (traces.bind fun _ => pure _) (pure _)

theorem inLoop (traces : Traces part whole) :
    Traces part fun other => Parse.inLoop (whole other) := by
  constructor
  · intro other state after value same done
    simp only [Parse.inLoop] at done ⊢
    cases ran : whole part { state with loopDepth := state.loopDepth + 1 } with
    | error error left => simp [ran] at done
    | ok found left => rwa [traces.ok same ran, ← ran]
  · intro state error stray failed
    rw [outcome_inLoop] at failed
    cases ran : outcome (whole part) { state with loopDepth := state.loopDepth + 1 } with
    | ok found =>
        rw [ran] at failed
        cases failed
    | error raised =>
        rw [ran] at failed
        cases failed
        obtain ⟨entered, enters, fails⟩ := traces.error stray ran
        exact ⟨entered, enters.inLoop, fails⟩

/-! Statements. -/

section Statement

variable {statement : Parse Node}

theorem sequence (bound : Nat) : Traces statement (Statement.sequence · bound) := by
  induction bound with
  | zero => exact pure _
  | succ bound ih =>
      refine behind Spares.steps.peek fun token => ?_
      refine behind Spares.steps.unreadCount fun left => ?_
      refine ite (pure _) ?_
      exact bind self fun first => bind ih fun others => pure _

theorem braced (context : String) : Traces statement (Statement.braced · context) := by
  refine behind Spares.steps.unreadCount fun bound => ?_
  refine bind (sequence bound) fun statements => ?_
  exact of_spares ((Spares.steps.expectPunctuation _ _).bind fun _ => Spares.steps.pure _)

theorem block : Traces statement Statement.block :=
  bind (braced _) fun _ => pure _

theorem body : Traces statement Statement.body := by
  refine behind (Spares.steps.accept _) fun opened => ?_
  exact ite block (bind self fun single => pure _)

theorem branches : Traces statement Statement.branches := by
  refine behind (Spares.steps.condition _ _) fun test => ?_
  refine bind body fun chosen => ?_
  refine behind (Spares.steps.accept _) fun hasAlternative => ?_
  exact bind (onlyIf hasAlternative body) fun alternative => pure _

theorem repeatsWhile : Traces statement Statement.repeatsWhile := by
  refine behind (Spares.steps.condition _ _) fun test => ?_
  exact bind (inLoop body) fun repeated => pure _

theorem repeatsDo : Traces statement Statement.repeatsDo := by
  refine bind (inLoop body) fun repeated => of_spares ?_
  apply (Spares.steps.expect _ _).bind
  intro _
  apply (Spares.steps.condition _ _).bind
  intro test
  exact (Spares.steps.expectPunctuation _ _).bind fun _ => Spares.steps.pure _

theorem opened {word : StatementWord} (other : word ≠ .breaks ∧ word ≠ .continues) :
    Traces statement (Statement.opened · word) := by
  have advance := Spares.steps.advance
  cases word with
  | alternative | repeatsFor => exact of_spares (Spares.steps.fail nofun)
  | returns => exact of_spares (advance.bind fun token => Spares.steps.returns token.location)
  | branches => exact behind advance fun token => branches
  | repeatsWhile => exact behind advance fun token => repeatsWhile
  | repeatsDo => exact behind advance fun token => repeatsDo
  | breaks => exact absurd rfl other.1
  | continues => exact absurd rfl other.2

theorem keyword {text : String} (other : text ≠ "break" ∧ text ≠ "continue") :
    Traces statement (Statement.keyword · text) := by
  unfold Statement.keyword
  cases is : StatementWord.ofText? text with
  | none => exact of_spares (ite_made (Spares.steps.fail nofun) Spares.localDeclaration)
  | some word =>
      have spelled := StatementWord.ofText?_eq_some is
      refine opened ⟨?_, ?_⟩
      · rintro rfl
        exact other.1 spelled
      · rintro rfl
        exact other.2 spelled

theorem plain : Traces statement Statement.plain := by
  refine behind (Spares.steps.accept _) fun isBlock => ite block (of_spares ?_)
  apply Spares.steps.peek.bind
  intro token
  apply Spares.steps.seesIdentifierAhead.bind
  intro named
  exact ite_made Spares.localDeclaration Spares.steps.expression

end Statement

/-! A module, by the statements of its functions. -/

theorem functionBody (enclosing : Enclosing) :
    Traces Statement.statement
      fun statement => { Declaration.parts with statement }.functionBody enclosing := by
  refine behind (Spares.setEnclosing _) fun _ => ?_
  refine behind (Spares.steps.expectPunctuation _ _) fun _ => ?_
  refine bind (braced _) fun statements => of_spares ?_
  exact (Spares.setEnclosing _).bind fun _ => Spares.steps.pure _

theorem function :
    Traces Statement.statement fun statement => { Declaration.parts with statement }.function := by
  refine behind Spares.steps.returnType fun type => ?_
  refine behind Spares.steps.expectIdentifier fun name => ?_
  refine behind (Spares.steps.expectPunctuation _ _) fun _ => ?_
  refine behind Spares.enterFunction fun _ => ?_
  refine behind Spares.parameters fun given => ?_
  refine behind (Spares.steps.expectPunctuation _ _) fun _ => ?_
  refine behind (Spares.declareFunction name _) fun _ => ?_
  refine bind (functionBody _) fun statements => ?_
  exact behind Spares.exitFunction fun _ => pure _

theorem declaration :
    Traces Statement.statement
      fun statement => { Declaration.parts with statement }.declaration := by
  refine behind Spares.steps.peek fun token => ?_
  refine behind (Spares.steps.seesAhead 2 _) fun isFunction => ?_
  refine ite (of_spares (Spares.steps.fail nofun)) ?_
  exact ite (of_spares Spares.global) (ite function (of_spares Spares.global))

theorem declarations (bound : Nat) :
    Traces Statement.statement fun statement =>
      Program.declarationsOf { Declaration.parts with statement }.declaration bound := by
  induction bound with
  | zero => exact pure _
  | succ bound ih =>
      refine behind Spares.steps.unreadCount fun left => ?_
      refine ite (pure _) ?_
      exact bind declaration fun first => bind ih fun others => pure _

theorem module :
    Traces Statement.statement fun statement => { Declaration.parts with statement }.module := by
  refine behind Spares.steps.unreadCount fun bound => ?_
  exact bind (declarations bound) fun children => pure _

end Traces

end Parse

namespace Statement

variable {state entered : State}

/-- The statement it comes to is nearer to the end: nothing that the statements there do matters
where no token has been read. -/
theorem step_shorter (present : state.unread ≠ []) (enters : Enters step statement state entered) :
    entered.unread.length < state.unread.length := by
  classical
  by_contra far
  obtain ⟨count, length⟩ := Nat.exists_eq_add_one.mpr (List.length_pos_iff.mpr present)
  have fails (error : ParseError) : outcome (step statement) state = .error error := by
    let other := Function.update statement entered (.error error entered)
    have apart (before : State) (elsewhere : before ≠ entered) : other before = statement before :=
      Function.update_of_ne elsewhere _ _
    have same : Same count statement other := by
      intro before short
      have elsewhere : before ≠ entered := by
        rintro rfl
        omega
      simp only [outcome, apart before elsewhere]
    obtain ⟨after, done, _⟩ :=
      enters other error entered apart (Function.update_self _ _ _)
    rw [step_same Built.steps.statement same state (by omega), outcome, done]
  have one := fails (.unknownType "" Location.start)
  cases one.symm.trans (fails (.undeclaredSymbol "" Location.start))

theorem present_of_stray {error : ParseError} (stray : error.IsStray)
    (failed : outcome statement state = .error error) : state.unread ≠ [] := by
  intro nothing
  have ended := statementWithin_nothing nothing state.unread.length
  simp only [statement, outcome_bind, outcome_unreadCount, ok_bind, ended] at failed
  cases failed
  cases stray

theorem jump_strays {tag : Tag} {word : Token} {error : ParseError} (stray : error.IsStray)
    (failed : outcome (jump tag word) state = .error error) :
    error = .malformed (.jumpOutsideLoop word.text) word.location := by
  by_cases depth : state.loopDepth = 0
  · simpa [jump, depth, eq_comm] using failed
  · rw [jump, outcome_bind, outcome_loopDepth, ok_bind, if_neg depth] at failed
    have spares := (Spares.steps.expectPunctuation ";" ("after '" ++ word.text ++ "'")).bind
      fun _ => Spares.steps.pure (⟨tag, none, none, []⟩ : Node)
    exact absurd stray (spares _ _ failed)

theorem statement_jumps {word : String} (isJump : word = "break" ∨ word = "continue")
    (next : state.next.toLexeme = .keyword word) :
    ∃ tag after, after.loopDepth = state.loopDepth ∧
      outcome statement state = outcome (jump tag state.next) after := by
  have text : state.next.text = word := congrArg Lexeme.text next
  have isWord : state.next.kind = .keyword := congrArg Lexeme.kind next
  have real : state.next.kind ≠ .endOfInput := by simp [isWord]
  obtain ⟨rest, unread⟩ := State.unread_of_next_kind real
  rw [statement_step]
  rcases isJump with rfl | rfl
  · refine ⟨.breakLoop, state.behind rest, rfl, ?_⟩
    simp [step, isWord, text, keyword, StatementWord.ofText?, opened, outcome_advance unread]
  · refine ⟨.continueLoop, state.behind rest, rfl, ?_⟩
    simp [step, isWord, text, keyword, StatementWord.ofText?, opened, outcome_advance unread]

/-- A statement refuses a stray jump that it is, or for a statement inside of it. -/
theorem stray_origin {error : ParseError} (stray : error.IsStray)
    (failed : outcome statement state = .error error) :
    (∃ word, (word = "break" ∨ word = "continue") ∧ state.next.toLexeme = .keyword word ∧
      error = .malformed (.jumpOutsideLoop word) state.next.location) ∨
    ∃ entered, Enters step statement state entered ∧ outcome statement entered = .error error := by
  by_cases word : state.next.kind = .keyword
  · by_cases jumps : state.next.text = "break" ∨ state.next.text = "continue"
    · have next : state.next.toLexeme = .keyword state.next.text :=
        congrArg (Lexeme.mk · state.next.text) word
      obtain ⟨tag, after, _, same⟩ := statement_jumps jumps next
      exact .inl ⟨_, jumps, next, jump_strays stray (same ▸ failed)⟩
    · rw [statement_step, outcome, step_eq, if_pos word, ← outcome] at failed
      obtain ⟨entered, enters, fails⟩ := (Traces.keyword (not_or.mp jumps)).error stray failed
      exact .inr ⟨entered, enters.congr fun other => by rw [step_eq, if_pos word], fails⟩
  · rw [statement_step, outcome, step_eq, if_neg word, ← outcome] at failed
    obtain ⟨entered, enters, fails⟩ := Traces.plain.error stray failed
    exact .inr ⟨entered, enters.congr fun other => by rw [step_eq, if_neg word], fails⟩

end Statement

end ScalarC
