import ScalarC.Parsing.Statement
import ScalarC.Proofs.Command.Grammar
import ScalarC.Proofs.Phrase.Agreement

/-!
What the parsers of statements accept is a command of the grammar: the tokens
they read derive it, and the node and the scope they leave are those of its
elaboration. Each parser is taken with the parser of inner statements as a
parameter, as it is written, and the knot is tied by induction on the bound.
-/

namespace ScalarC

open Parse

def StatementWord.spelling : StatementWord → String
  | returns => "return"
  | branches => "if"
  | alternative => "else"
  | repeatsWhile => "while"
  | repeatsDo => "do"
  | repeatsFor => "for"
  | breaks => "break"
  | continues => "continue"

theorem StatementWord.ofText?_eq_some {text : String} {word : StatementWord}
    (found : ofText? text = some word) : text = word.spelling := by
  unfold ofText? at found
  repeat' split at found
  all_goals cases found <;> assumption

namespace Command

/-- What a parser of statements has read. Where an `else` could go on, none comes next. -/
structure Reading (function : Enclosing) (state : State) (tokens : List Token)
    (command : Command) (node : Node) (after : State) : Prop where
  passes : state.Passes tokens after
  derives : Derives Token.Declares .statement tokens [command]
  elaborates : Elaborates function state.loopDepth state.scope [command] [node] after.scope
  closed : command.endsOpen = true → after.next.toLexeme ≠ .keyword "else"

def Spells (parser : Parse Node) : Prop :=
  ∀ function state node after, state.function = some function →
    outcome parser state = .ok (node, after) →
    ∃ tokens command, Reading function state tokens command node after

theorem declares_of_reads {state after : State} {type : DataType}
    (done : outcome declaredType state = .ok (type, after)) :
    state.Reads [state.next] after ∧ state.next.Declares type := by
  obtain ⟨reads, spelled, kind⟩ := Phrase.declaredType_reads done
  exact ⟨reads, kind, spelled⟩

theorem condition_reads {before behind : String} {state after : State} {node : Node}
    (done : outcome (Statement.condition before behind) state = .ok (node, after)) :
    ∃ tokens test, state.Reads tokens after ∧ Condition tokens test ∧
      test.Yields state.scope .i32 node := by
  simp only [Statement.condition, outcome_bind, outcome_pure, bind_eq_ok, Prod.exists,
    Except.ok.injEq, Prod.mk.injEq] at done
  obtain ⟨_, _, opened, _, _, ran, _, _, closed, rfl, rfl⟩ := done
  obtain ⟨opening, isOpening, start⟩ := expect_reads (by decide) opened
  obtain ⟨tokens, test, reads, derives, yields⟩ := Phrase.ofType_reads ran
  obtain ⟨closing, isClosing, close⟩ := expect_reads (by decide) closed
  rw [start.scope] at yields
  exact ⟨_, test, start.trans (reads.trans close), .intro isOpening isClosing derives, yields⟩

theorem localDeclaration_spells : Spells Statement.localDeclaration := by
  intro function state node after _ done
  simp only [Statement.localDeclaration, outcome_bind, outcome_sees, ok_bind, outcome_ite,
    outcome_fail, bind_eq_ok, Prod.exists] at done
  obtain ⟨type, _, declared, name, _, isName, done⟩ := done
  obtain ⟨read, names⟩ := declares_of_reads declared
  obtain ⟨isIdentifier, reads⟩ := expectIdentifier_reads isName
  have start := read.trans reads
  split at done
  · cases done
  simp only [outcome_onlyIf, outcome_declare, outcome_pure, bind_eq_ok, Prod.exists,
    Except.ok.injEq, Prod.mk.injEq] at done
  obtain ⟨initialized, _, accepted, values, _, value, _, ended, closed, _, _,
    ⟨entry, scope, entered, _, rfl⟩, rfl, rfl⟩ := done
  obtain ⟨semicolon, isEnd, close⟩ := expect_reads (by decide) closed
  rcases accept_reads (by decide) accepted with ⟨rfl, mark, isMark, go⟩ | ⟨rfl, _, rfl⟩
  · simp only [↓reduceIte, bind_eq_ok, Prod.exists, Except.ok.injEq, Prod.mk.injEq] at value
    obtain ⟨node, _, ran, rfl, rfl⟩ := value
    obtain ⟨tokens, phrase, goes, derives, yields⟩ := Phrase.ofType_reads ran
    have before := start.trans go
    have whole := before.trans (goes.trans close)
    rw [before.scope] at yields
    rw [whole.scope] at entered
    exact ⟨_, .initialized type name phrase, whole.declaring scope,
      .initialized names isIdentifier isMark derives isEnd, .initialized yields entered,
      by simp [endsOpen]⟩
  · simp only [Bool.false_eq_true, ↓reduceIte, Except.ok.injEq, Prod.mk.injEq] at value
    obtain ⟨rfl, rfl⟩ := value
    have whole := start.trans close
    rw [whole.scope] at entered
    exact ⟨_, .declared type name, whole.declaring scope,
      .declared names isIdentifier isEnd, .declared entered, by simp [endsOpen]⟩

theorem advanced_reads {further : Token → Parse Node} {state after : State} {node : Node}
    (real : state.next.kind ≠ .endOfInput)
    (done : outcome (advance >>= further) state = .ok (node, after)) :
    ∃ begun, state.Reads [state.next] begun ∧
      outcome (further state.next) begun = .ok (node, after) := by
  simp only [outcome_bind, bind_eq_ok, Prod.exists] at done
  obtain ⟨word, begun, advanced, done⟩ := done
  obtain ⟨rfl, start⟩ := advance_reads real advanced
  exact ⟨begun, start, done⟩

theorem expression_spells : Spells Statement.expression := by
  intro function state node after _ done
  simp only [Statement.expression, outcome_bind, outcome_ofExcept, bind_assoc, ok_bind,
    outcome_ite, outcome_pure, bind_eq_ok, Prod.exists] at done
  obtain ⟨found, _, ran, value, frozen, _, ended, closed, done⟩ := done
  obtain ⟨semicolon, isEnd, close⟩ := expect_reads (by decide) closed
  obtain ⟨tokens, phrase, reads, derives, elaborated⟩ := Phrase.frozen_reads ran frozen
  have stands : value.asStatement = node ∧ ended = after := by
    unfold Node.asStatement
    split at done <;> cases done <;> simp [*]
  obtain ⟨rfl, rfl⟩ := stands
  have whole := reads.trans close
  exact ⟨_, .expression phrase, whole.toPasses, .expression derives isEnd,
    by rw [whole.scope]; exact .expression elaborated, by simp [endsOpen]⟩

section Word

variable {word : Token} {state begun after : State} {node : Node}
  (start : state.Reads [word] begun)
include start

theorem returns_reads {function : Enclosing} {place : Location}
    (inside : state.function = some function) (isWord : word.toLexeme = .keyword "return")
    (done : outcome (Statement.returns place) begun = .ok (node, after)) :
    ∃ tokens command, Reading function state tokens command node after := by
  simp only [Statement.returns, Statement.returnValue, outcome_bind, outcome_enclosing, ok_bind,
    start.function, inside, outcome_peek, outcome_sees, bind_eq_ok, Prod.exists, outcome_pure,
    Except.ok.injEq, Prod.mk.injEq] at done
  obtain ⟨values, _, value, _, _, closed, rfl, rfl⟩ := done
  obtain ⟨semicolon, isEnd, close⟩ := expect_reads (by decide) closed
  split at value
  · cases value
  · cases value
  · rename_i type hasType ends
    simp only [outcome_bind, outcome_pure, bind_eq_ok, Prod.exists, Except.ok.injEq,
      Prod.mk.injEq] at value
    obtain ⟨node, _, ran, rfl, rfl⟩ := value
    obtain ⟨tokens, phrase, reads, derives, yields⟩ := Phrase.ofType_reads ran
    have whole := start.trans (reads.trans close)
    rw [start.scope] at yields
    rw [hasType]
    exact ⟨_, .returnedValue phrase, whole.toPasses, .returnedValue isWord derives isEnd,
      by rw [whole.scope]; exact .returnedValue hasType yields, by simp [endsOpen]⟩
  · rename_i isVoid ends
    simp only [outcome_pure, Except.ok.injEq, Prod.mk.injEq] at value
    obtain ⟨rfl, rfl⟩ := value
    have whole := start.trans close
    rw [isVoid]
    exact ⟨_, .returned, whole.toPasses, .returned isWord isEnd,
      by rw [whole.scope]; exact .returned isVoid, by simp [endsOpen]⟩

theorem jump_reads {tag : Tag}
    (done : outcome (Statement.jump tag word) begun = .ok (node, after)) :
    ∃ semicolon : Token, semicolon.toLexeme = .punctuation ";" ∧
      state.Reads [word, semicolon] after ∧ state.loopDepth ≠ 0 ∧
      node = ⟨tag, none, none, []⟩ := by
  simp only [Statement.jump, outcome_bind, outcome_loopDepth, ok_bind, outcome_ite,
    outcome_raise] at done
  split at done
  · cases done
  rename_i inLoop
  simp only [bind_eq_ok, outcome_pure, Prod.exists, Except.ok.injEq, Prod.mk.injEq] at done
  obtain ⟨_, _, closed, rfl, rfl⟩ := done
  obtain ⟨semicolon, isEnd, close⟩ := expect_reads (by decide) closed
  exact ⟨semicolon, isEnd, start.trans close, start.loopDepth ▸ inLoop, rfl⟩

end Word

section Inner

variable {statement : Parse Node} (inner : Spells statement) {function : Enclosing}
include inner

theorem sequence_reads {bound : Nat} {state after : State} {nodes : List Node}
    (inside : state.function = some function)
    (done : outcome (Statement.sequence statement bound) state = .ok (nodes, after)) :
    ∃ tokens commands, state.Passes tokens after ∧
      Derives Token.Declares .sequence tokens commands ∧
      Elaborates function state.loopDepth state.scope commands nodes after.scope := by
  induction bound generalizing state nodes with
  | zero =>
      cases done
      exact ⟨[], [], (State.Reads.refl _).toPasses, .none, .nil⟩
  | succ bound ih =>
      simp only [Statement.sequence, outcome_bind, outcome_peek, outcome_unreadCount, ok_bind,
        outcome_ite, outcome_pure] at done
      split at done
      · cases done
        exact ⟨[], [], (State.Reads.refl _).toPasses, .none, .nil⟩
      simp only [bind_eq_ok, Prod.exists, Except.ok.injEq, Prod.mk.injEq] at done
      obtain ⟨node, middle, first, others, _, rest, rfl, rfl⟩ := done
      obtain ⟨tokens, command, read⟩ := inner _ _ _ _ inside first
      obtain ⟨further, commands, passes, derives, elaborates⟩ :=
        ih (read.passes.function.trans inside) rest
      rw [read.passes.loopDepth] at elaborates
      exact ⟨tokens ++ further, command :: commands, read.passes.trans passes,
        .further read.derives derives, .cons read.elaborates elaborates⟩

theorem braced_reads {context : String} {state after : State} {nodes : List Node}
    (inside : state.function = some function)
    (done : outcome (Statement.braced statement context) state = .ok (nodes, after)) :
    ∃ tokens closing commands, state.Passes (tokens ++ [closing]) after ∧
      closing.toLexeme = .punctuation "\x7d" ∧
      Derives Token.Declares .sequence tokens commands ∧
      Elaborates function state.loopDepth state.scope commands nodes after.scope := by
  simp only [Statement.braced, outcome_bind, outcome_unreadCount, ok_bind, outcome_pure,
    bind_eq_ok, Prod.exists, Except.ok.injEq, Prod.mk.injEq] at done
  obtain ⟨nodes, _, ran, _, _, closed, rfl, rfl⟩ := done
  obtain ⟨tokens, commands, passes, derives, elaborates⟩ := sequence_reads inner inside ran
  obtain ⟨closing, isClosing, close⟩ := expect_reads (by decide) closed
  rw [← close.scope] at elaborates
  exact ⟨tokens, closing, commands, passes.trans close.toPasses, isClosing, derives, elaborates⟩

theorem block_reads {opening : Token} {state begun after : State} {node : Node}
    (inside : state.function = some function) (start : state.Reads [opening] begun)
    (isOpening : opening.toLexeme = .punctuation "\x7b")
    (done : outcome (Statement.block statement) begun = .ok (node, after)) :
    ∃ tokens commands, Reading function state tokens (.block commands) node after := by
  simp only [Statement.block, outcome_bind, outcome_pure, bind_eq_ok, Prod.exists,
    Except.ok.injEq, Prod.mk.injEq] at done
  obtain ⟨nodes, _, ran, rfl, rfl⟩ := done
  obtain ⟨tokens, closing, commands, passes, isClosing, derives, elaborates⟩ :=
    braced_reads inner (start.function.trans inside) ran
  rw [start.loopDepth, start.scope] at elaborates
  exact ⟨_, commands, start.toPasses.trans passes, .block isOpening derives isClosing,
    .block elaborates, by simp [endsOpen]⟩

theorem body_reads {state after : State} {node : Node} (inside : state.function = some function)
    (done : outcome (Statement.body statement) state = .ok (node, after)) :
    ∃ tokens command single, Reading function state tokens command single after ∧
      node = command.body single := by
  simp only [Statement.body, outcome_bind, outcome_ite, outcome_pure, bind_eq_ok,
    Prod.exists] at done
  obtain ⟨opened, _, accepted, done⟩ := done
  rcases accept_reads (by decide) accepted with ⟨rfl, opening, isOpening, start⟩ | ⟨rfl, other, rfl⟩
  · obtain ⟨tokens, commands, read⟩ := block_reads inner inside start isOpening done
    exact ⟨tokens, .block commands, node, read, rfl⟩
  · simp only [Bool.false_eq_true, ↓reduceIte, bind_eq_ok, Prod.exists, Except.ok.injEq,
      Prod.mk.injEq] at done
    obtain ⟨single, _, ran, rfl, rfl⟩ := done
    obtain ⟨tokens, command, read⟩ := inner _ _ _ _ inside ran
    refine ⟨tokens, command, single, read, ?_⟩
    -- No block was accepted here, so the command is none and gets one around it.
    cases command with
    | block commands =>
        obtain ⟨opening, rest, rfl, isOpening⟩ := read.derives.opens_block
        have next : _ = opening := State.next_cons read.passes.unread
        exact absurd (next ▸ isOpening) other
    | _ => rfl

theorem repeated_reads {state after : State} {node : Node}
    (inside : state.function = some function)
    (done : outcome (Parse.inLoop (Statement.body statement)) state = .ok (node, after)) :
    ∃ tokens command single, state.Passes tokens after ∧
      Derives Token.Declares .statement tokens [command] ∧
      Elaborates function (state.loopDepth + 1) state.scope [command] [single] after.scope ∧
      (command.endsOpen = true → after.next.toLexeme ≠ .keyword "else") ∧
      node = command.body single := by
  simp only [outcome_inLoop, bind_eq_ok, Prod.exists, Except.ok.injEq, Prod.mk.injEq] at done
  obtain ⟨_, _, ran, rfl, rfl⟩ := done
  have within : { state with loopDepth := state.loopDepth + 1 }.function = some function := inside
  obtain ⟨tokens, command, single, read, rfl⟩ := body_reads inner within ran
  exact ⟨tokens, command, single, read.passes.inLoop, read.derives, read.elaborates, read.closed,
    rfl⟩

section Word

variable {word : Token} {state begun after : State} {node : Node}
  (inside : state.function = some function) (start : state.Reads [word] begun)
include inside start

theorem branches_reads (isWord : word.toLexeme = .keyword "if")
    (done : outcome (Statement.branches statement) begun = .ok (node, after)) :
    ∃ tokens command, Reading function state tokens command node after := by
  simp only [Statement.branches, outcome_bind, outcome_onlyIf, outcome_pure, bind_eq_ok,
    Prod.exists, Except.ok.injEq, Prod.mk.injEq] at done
  obtain ⟨condition, _, tested, _, _, chose, hasAlternative, _, accepted, alternatives, _, done,
    rfl, rfl⟩ := done
  obtain ⟨tests, test, reads, isTest, yields⟩ := condition_reads tested
  have before := start.trans reads
  rw [start.scope] at yields
  obtain ⟨first, chosen, single, read, rfl⟩ :=
    body_reads inner (before.function.trans inside) chose
  have elaborated := read.elaborates
  rw [before.loopDepth, before.scope] at elaborated
  have decided := before.toPasses.trans read.passes
  rcases accept_reads (by decide) accepted with ⟨rfl, mark, isElse, go⟩ | ⟨rfl, ends, rfl⟩
  -- An `else` that comes next would have been taken by an `if` still open in the first body.
  · have closed : chosen.endsOpen = false := by
      cases isOpen : chosen.endsOpen with
      | false => rfl
      | true =>
          have next : _ = mark := State.next_cons go.unread
          exact absurd (next ▸ isElse) (read.closed isOpen)
    simp only [↓reduceIte, bind_eq_ok, Prod.exists, Except.ok.injEq, Prod.mk.injEq] at done
    obtain ⟨_, _, ran, rfl, rfl⟩ := done
    have middle := decided.trans go.toPasses
    obtain ⟨second, alternative, single, other, rfl⟩ :=
      body_reads inner (middle.function.trans inside) ran
    have otherwise := other.elaborates
    rw [middle.loopDepth, go.scope] at otherwise
    refine ⟨_, .branchElse test chosen alternative, ?_,
      .branchElse isWord isTest read.derives closed isElse other.derives,
      .branchElse yields elaborated otherwise, other.closed⟩
    simpa using middle.trans other.passes
  · simp only [Bool.false_eq_true, ↓reduceIte, Except.ok.injEq, Prod.mk.injEq] at done
    obtain ⟨rfl, rfl⟩ := done
    exact ⟨_, .branch test chosen, decided, .branch isWord isTest read.derives,
      .branch yields elaborated, fun _ => ends⟩

theorem repeatsWhile_reads (isWord : word.toLexeme = .keyword "while")
    (done : outcome (Statement.repeatsWhile statement) begun = .ok (node, after)) :
    ∃ tokens command, Reading function state tokens command node after := by
  simp only [Statement.repeatsWhile, outcome_bind, outcome_pure, bind_eq_ok, Prod.exists,
    Except.ok.injEq, Prod.mk.injEq] at done
  obtain ⟨condition, _, tested, _, _, ran, rfl, rfl⟩ := done
  obtain ⟨tests, test, reads, isTest, yields⟩ := condition_reads tested
  have before := start.trans reads
  rw [start.scope] at yields
  obtain ⟨tokens, repeated, single, passes, derives, elaborates, closed, rfl⟩ :=
    repeated_reads inner (before.function.trans inside) ran
  rw [before.loopDepth, before.scope] at elaborates
  exact ⟨_, .whileLoop test repeated, before.toPasses.trans passes,
    .whileLoop isWord isTest derives, .whileLoop yields elaborates, closed⟩

theorem repeatsDo_reads (isWord : word.toLexeme = .keyword "do")
    (done : outcome (Statement.repeatsDo statement) begun = .ok (node, after)) :
    ∃ tokens command, Reading function state tokens command node after := by
  simp only [Statement.repeatsDo, outcome_bind, outcome_pure, bind_eq_ok, Prod.exists,
    Except.ok.injEq, Prod.mk.injEq] at done
  obtain ⟨_, _, ran, _, _, again, condition, _, tested, _, _, ended, rfl, rfl⟩ := done
  obtain ⟨tokens, repeated, single, passes, derives, elaborates, closed, rfl⟩ :=
    repeated_reads inner (start.function.trans inside) ran
  obtain ⟨other, isWhile, go⟩ := expect_reads (by decide) again
  obtain ⟨tests, test, reads, isTest, yields⟩ := condition_reads tested
  obtain ⟨semicolon, isEnd, close⟩ := expect_reads (by decide) ended
  -- The condition is read behind the body, so it is typed in the scope the body leaves.
  have behind := go.trans (reads.trans close)
  rw [start.loopDepth, start.scope] at elaborates
  rw [go.scope] at yields
  refine ⟨_, .doLoop repeated test, ?_, .doLoop isWord derives isWhile isTest isEnd,
    by rw [behind.scope]; exact .doLoop elaborates yields, by simp [endsOpen]⟩
  simpa using start.toPasses.trans (passes.trans behind.toPasses)

end Word

theorem opened_reads {begins : StatementWord} {state after : State} {node : Node}
    (inside : state.function = some function)
    (isWord : state.next.toLexeme = .keyword begins.spelling)
    (done : outcome (Statement.opened statement begins) state = .ok (node, after)) :
    ∃ tokens command, Reading function state tokens command node after := by
  have real : state.next.kind ≠ .endOfInput := by simp [isWord]
  cases begins with
  | alternative | repeatsFor => simp [Statement.opened] at done
  | returns =>
      obtain ⟨begun, start, done⟩ := advanced_reads real done
      exact returns_reads start inside isWord done
  | branches =>
      obtain ⟨begun, start, done⟩ := advanced_reads real done
      exact branches_reads inner inside start isWord done
  | repeatsWhile =>
      obtain ⟨begun, start, done⟩ := advanced_reads real done
      exact repeatsWhile_reads inner inside start isWord done
  | repeatsDo =>
      obtain ⟨begun, start, done⟩ := advanced_reads real done
      exact repeatsDo_reads inner inside start isWord done
  | breaks =>
      obtain ⟨begun, start, done⟩ := advanced_reads real done
      obtain ⟨semicolon, isEnd, reads, inLoop, rfl⟩ := jump_reads start done
      exact ⟨_, .breakLoop, reads.toPasses, .breakLoop isWord isEnd,
        by rw [reads.scope]; exact .breakLoop inLoop, by simp [endsOpen]⟩
  | continues =>
      obtain ⟨begun, start, done⟩ := advanced_reads real done
      obtain ⟨semicolon, isEnd, reads, inLoop, rfl⟩ := jump_reads start done
      exact ⟨_, .continueLoop, reads.toPasses, .continueLoop isWord isEnd,
        by rw [reads.scope]; exact .continueLoop inLoop, by simp [endsOpen]⟩

theorem keyword_reads {state after : State} {node : Node}
    (inside : state.function = some function) (isWord : state.next.kind = .keyword)
    (done : outcome (Statement.keyword statement state.next.text) state = .ok (node, after)) :
    ∃ tokens command, Reading function state tokens command node after := by
  unfold Statement.keyword at done
  split at done
  · rename_i begins isOpening
    have spelled : state.next.toLexeme = .keyword begins.spelling := by
      simp [Lexeme.keyword, ← isWord, ← StatementWord.ofText?_eq_some isOpening]
    exact opened_reads inner inside spelled done
  · simp only [outcome_ite, outcome_fail] at done
    split at done
    · cases done
    · exact localDeclaration_spells _ _ _ _ inside done

theorem plain_spells : Spells (Statement.plain statement) := by
  intro function state node after inside done
  simp only [Statement.plain, outcome_bind, bind_eq_ok, Prod.exists] at done
  obtain ⟨isBlock, _, accepted, done⟩ := done
  rcases accept_reads (by decide) accepted with ⟨rfl, opening, isOpening, start⟩ | ⟨rfl, _, rfl⟩
  · obtain ⟨tokens, commands, read⟩ := block_reads inner inside start isOpening done
    exact ⟨tokens, _, read⟩
  · simp only [Bool.false_eq_true, ↓reduceIte, outcome_bind, outcome_peek, ok_bind,
      outcome_seesIdentifierAhead, outcome_ite] at done
    split at done
    · exact localDeclaration_spells _ _ _ _ inside done
    · exact expression_spells _ _ _ _ inside done

end Inner

theorem statementWithin_spells (bound : Nat) : Spells (Statement.statementWithin bound) := by
  -- The statements inside one of this bound are parsed with the bound before.
  induction bound with
  | zero =>
      intro function state node after _ done
      simp [Statement.statementWithin] at done
  | succ bound ih =>
      intro function state node after inside done
      simp only [Statement.statementWithin, outcome_bind, outcome_peek, ok_bind,
        outcome_ite] at done
      split at done
      · rename_i isWord
        exact keyword_reads ih inside isWord done
      · exact plain_spells ih _ _ _ _ inside done

theorem statement_spells : Spells Statement.statement := by
  intro function state node after inside done
  simp only [Statement.statement, outcome_bind, outcome_unreadCount, ok_bind] at done
  exact statementWithin_spells _ _ _ _ _ inside done

end Command

end ScalarC
