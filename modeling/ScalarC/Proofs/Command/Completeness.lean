import ScalarC.Proofs.Command.Effects
import ScalarC.Proofs.Command.Soundness

/-!
The parsers of statements find every command of the grammar: on tokens that
derive one they do what its effect says, whatever stands behind them, and an
error among it. Only an `else` must not stand behind a command that ends in an
open `if`, and the statements of a block have to be followed by its brace.
-/

namespace ScalarC

open Parse

namespace State

def past (state : State) (rest : List Token) (scope : Scope) : State :=
  { state with unread := rest, scope }

variable (state : State) (rest others : List Token) (scope middle : Scope)

@[simp] theorem past_unread : (state.past rest scope).unread = rest := rfl

@[simp] theorem past_scope : (state.past rest scope).scope = scope := rfl

@[simp] theorem past_function : (state.past rest scope).function = state.function := rfl

@[simp] theorem past_loopDepth : (state.past rest scope).loopDepth = state.loopDepth := rfl

@[simp] theorem past_past : (state.past others middle).past rest scope = state.past rest scope :=
  rfl

@[simp] theorem behind_past : (state.behind others).past rest scope = state.past rest scope := rfl

@[simp] theorem past_behind : (state.past others scope).behind rest = state.past rest scope := rfl

theorem behind_eq_past : state.behind rest = state.past rest state.scope := rfl

variable {state rest} in
theorem past_self (unread : state.unread = rest) : state.past rest state.scope = state := by
  subst unread
  rfl

@[simp] theorem next_past_cons (token : Token) : (state.past (token :: rest) scope).next = token :=
  rfl

end State

namespace Command

theorem declares_word {word : Token} {type : DataType} (names : word.Declares type) :
    word.text ∈ ["int", "long", "float", "double"] := by
  have spelled := names.2
  simp only [DataType.ofWord?] at spelled
  repeat' split at spelled
  all_goals simp_all

theorem typeWords_open_nothing : ∀ word ∈ ["int", "long", "float", "double"],
    StatementWord.ofText? word = none ∧ word ∉ ["const", "void", "else"] := by
  decide

theorem declaredType_of_declares {state : State} {word name : Token} {rest : List Token}
    {type : DataType} (unread : state.unread = word :: name :: rest) (names : word.Declares type)
    (isName : name.kind = .identifier) :
    outcome declaredType state = .ok (type, state.behind (name :: rest)) := by
  have declared : DataType.declared word.text word.location = .ok type :=
    Phrase.declared_eq_ok.mpr names.2
  have inPlace : word.inTypePosition true = true := by
    have opensNothing := (typeWords_open_nothing _ (declares_word names)).1
    rcases names.1 with kind | kind <;>
      simp [Lexeme.inTypePosition, Lexeme.isTypeWord, kind, opensNothing]
  simp [declaredType, State.next_cons unread, unread, isName, inPlace, outcome_advance unread,
    declared]

theorem outcome_expectIdentifier {state : State} {name : Token} {rest : List Token}
    (unread : state.unread = name :: rest) (isName : name.kind = .identifier) :
    outcome expectIdentifier state = .ok (name, state.behind rest) := by
  simp [expectIdentifier, State.next_cons unread, isName, outcome_advance unread]

theorem ofType_parses {tokens rest : List Token} {phrase : Phrase} {state : State}
    (derives : Phrase.Derives .expression tokens [phrase]) (unread : state.unread = tokens ++ rest)
    (ends : Phrase.Ends rest) (expected : DataType) (context : String) :
    outcome (Expression.ofType expected context) state =
      phrase.settled state.scope expected context >>= fun node => .ok (node, state.behind rest) :=
  Phrase.typed_parses (Phrase.operand_parses derives unread ends)
    (Phrase.next_eq_start unread derives) expected context

theorem condition_parses {tests rest : List Token} {test : Phrase} {state : State}
    (isTest : Condition tests test) (unread : state.unread = tests ++ rest)
    (before after : String) :
    outcome (Statement.condition before after) state =
      test.settled state.scope .i32 "condition" >>= fun node => .ok (node, state.behind rest) := by
  cases isTest with
  | @intro opening closing tokens _ isOpening isClosing derives =>
      have spread : state.unread = opening :: (tokens ++ closing :: rest) := by simpa using unread
      have opened := outcome_expect spread isOpening before
      have typed := ofType_parses derives (state.behind_unread (tokens ++ closing :: rest))
        (Phrase.ends_punctuation isClosing (by decide)) .i32 "condition"
      have closed := outcome_expect (state.behind_unread (closing :: rest)) isClosing after
      simp [Statement.condition, expectPunctuation, opened, typed, closed]

theorem second_not_identifier {symbol : Phrase.Symbol} {tokens : List Token}
    {phrases : List Phrase} (derives : Phrase.Derives symbol tokens phrases)
    {name second : Token} {rest others : List Token}
    (begins : tokens ++ rest = name :: second :: others) (named : name.kind = .identifier)
    (follows : ∀ token ∈ rest.head?, token.kind ≠ .identifier) : second.kind ≠ .identifier := by
  induction derives generalizing rest others with
  | operators _ ih | tighter _ ih | prefixed _ ih | plain _ ih | last _ ih =>
      exact ih begins follows
  | assignment _ isMark =>
      obtain ⟨_, behind⟩ := List.cons.inj begins
      obtain ⟨rfl, _⟩ := List.cons.inj behind
      intro isName
      simp [Assignment.ofLexeme?, isName] at isMark
  | joined _ _ isMark _ ih =>
      refine ih (by simpa using begins) fun token head => ?_
      obtain rfl : _ = token := by simpa using head
      simp [isMark]
  | further _ isComma _ ih =>
      refine ih (by simpa using begins) fun token head => ?_
      obtain rfl : _ = token := by simpa using head
      simp [isComma]
  | negation isMinus | complement isMinus =>
      obtain ⟨rfl, _⟩ := List.cons.inj begins
      simp [isMinus] at named
  | cast isOpening | group isOpening =>
      obtain ⟨rfl, _⟩ := List.cons.inj begins
      simp [isOpening] at named
  | number kind =>
      obtain ⟨rfl, _⟩ := List.cons.inj begins
      simp [kind] at named
  | reference =>
      obtain ⟨rfl, rfl⟩ := List.cons.inj begins
      exact follows second rfl
  | emptyCall _ isOpening | call _ isOpening =>
      obtain ⟨_, behind⟩ := List.cons.inj begins
      obtain ⟨rfl, _⟩ := List.cons.inj behind
      simp [isOpening]

theorem opens_not_keyword {token : Token} (opens : Phrase.Opens token) :
    token.kind ≠ .keyword := by
  cases opens with
  | number kind | identifier kind => simp [kind]
  | minus same | complement same | parenthesis same =>
      intro kind
      simp [same] at kind

theorem opens_not_mark {token : Token} {mark : String} (opens : Phrase.Opens token)
    (other : mark ≠ "(") : token.toLexeme ≠ .punctuation mark := by
  intro isMark
  cases opens with
  | number kind | identifier kind => simp [isMark] at kind
  | minus same | complement same => simp [isMark] at same
  | parenthesis same =>
      rw [isMark, Lexeme.punctuation_inj] at same
      exact other same

theorem Derives.begins {tokens : List Token} {command : Command}
    (derives : Derives Token.Declares .statement tokens [command]) :
    ∃ token others, tokens = token :: others ∧ token.toLexeme ≠ .keyword "else" ∧
      token.toLexeme ≠ .punctuation "\x7d" := by
  have declares {word : Token} {type : DataType} (names : word.Declares type) :
      word.toLexeme ≠ .keyword "else" ∧ word.toLexeme ≠ .punctuation "\x7d" := by
    have spelled := declares_word names
    constructor
    all_goals
      intro same
      rw [same] at spelled
      revert spelled
      decide
  cases derives with
  | declared names | initialized names => exact ⟨_, _, rfl, declares names⟩
  | expression derives =>
      obtain ⟨⟨rest, rfl⟩, opens⟩ := derives.start
      refine ⟨_, _, rfl, fun same => opens_not_keyword opens ?_, opens_not_mark opens (by decide)⟩
      rw [same]
      rfl
  | returned isWord | returnedValue isWord | branch isWord | branchElse isWord | whileLoop isWord
  | doLoop isWord | breakLoop isWord | continueLoop isWord | block isWord =>
      refine ⟨_, _, rfl, ?_⟩
      rw [isWord]
      decide

/-- No `else` stands behind a command that ends in an open `if`. -/
def Follows (command : Command) (rest : List Token) : Prop :=
  command.endsOpen = true → ∀ token ∈ rest.head?, token.toLexeme ≠ .keyword "else"

/-- A parser does on what comes next what the effect says, and leaves the rest. -/
def Performs {α : Type} (parser : Parse α) (effect : Effect α) (function : Enclosing)
    (state : State) (rest : List Token) : Prop :=
  outcome parser state = effect function state.loopDepth state.scope >>= fun found =>
    .ok (found.1, state.past rest found.2)

/-- A state in a function before the tokens of a command, with a bound that covers them. -/
structure Ready (tokens : List Token) (command : Command) (bound : Nat) (function : Enclosing)
    (state : State) (rest : List Token) : Prop where
  enough : tokens.length ≤ bound
  inside : state.function = some function
  unread : state.unread = tokens ++ rest
  follows : command.Follows rest

structure Does (tokens : List Token) (command : Command) (effect : Effect Node) : Prop where
  statement {bound : Nat} {function : Enclosing} {state : State} {rest : List Token} :
    Ready tokens command bound function state rest →
    Performs (Statement.statementWithin bound) effect function state rest
  body {bound : Nat} {function : Enclosing} {state : State} {rest : List Token} :
    Ready tokens command bound function state rest →
    Performs (Statement.body (Statement.statementWithin bound)) (effect.embodied command) function
      state rest
  admits {allowed : ParseError → Prop} :
    (∀ error, error.IsSemantic → allowed error) →
    (∀ token ∈ tokens, token.kind = .number → Literal.Tolerated allowed token.text) →
    effect.Admits allowed (Strays · command)

/-- A command that is no block is put into one where it is a body. -/
theorem Does.intro {token : Token} {others : List Token} {command : Command}
    {effect : Effect Node} (noBlock : token.toLexeme ≠ .punctuation "\x7b")
    (wraps : ∀ node, command.body node = ⟨.block, none, none, [node]⟩)
    (statement : ∀ bound function state rest,
      Ready (token :: others) command (bound + 1) function state rest →
      Performs (Statement.statementWithin (bound + 1)) effect function state rest)
    (admits : ∀ allowed : ParseError → Prop, (∀ error, error.IsSemantic → allowed error) →
      (∀ read ∈ token :: others, read.kind = .number → Literal.Tolerated allowed read.text) →
      effect.Admits allowed (Strays · command)) :
    Does (token :: others) command effect := by
  have within {bound : Nat} {function : Enclosing} {state : State} {rest : List Token}
      (ready : Ready (token :: others) command bound function state rest) :
      Performs (Statement.statementWithin bound) effect function state rest := by
    have enough := ready.enough
    rw [List.length_cons] at enough
    obtain ⟨bound, rfl⟩ := Nat.exists_eq_succ_of_ne_zero (show bound ≠ 0 by omega)
    exact statement bound function state rest ready
  refine ⟨within, fun ready => ?_, fun semantic numbers => admits _ semantic numbers⟩
  have other := outcome_accept_other ((State.next_cons ready.unread).symm ▸ noBlock)
  have parses := within ready
  rw [Performs] at parses
  simp [Performs, Statement.body, other, parses, Effect.embodied, wraps]

theorem statementWithin_opened {word : Token} {begins : StatementWord} {rest : List Token}
    {state : State} (bound : Nat) (isWord : word.toLexeme = .keyword begins.spelling)
    (unread : state.unread = word :: rest) :
    outcome (Statement.statementWithin (bound + 1)) state =
      outcome (Statement.opened (Statement.statementWithin bound) begins) state := by
  have found : StatementWord.ofText? begins.spelling = some begins := by
    cases begins <;> rfl
  have kind : word.kind = .keyword := by rw [isWord]; rfl
  have text : word.text = begins.spelling := by rw [isWord]; rfl
  simp [Statement.statementWithin, Statement.keyword, State.next_cons unread, kind, text, found]

theorem accept_no_else {state : State} {rest : List Token}
    (other : ∀ token ∈ rest.head?, token.toLexeme ≠ .keyword "else") (scope : Scope) :
    outcome (accept (.keyword "else")) (state.past rest scope) =
      .ok (false, state.past rest scope) := by
  refine outcome_accept_other fun same => ?_
  cases rest with
  -- The end of input is no keyword.
  | nil =>
      have kind : (state.past [] scope).next.kind = .keyword := by rw [same]; rfl
      rw [show (state.past [] scope).next.kind = .endOfInput from state.closes] at kind
      cases kind
  | cons token rest => exact other token rfl same

theorem Does.ofWord (begins : StatementWord) {word : Token} {others : List Token}
    {command : Command} {effect : Effect Node} (isWord : word.toLexeme = .keyword begins.spelling)
    (wraps : ∀ node, command.body node = ⟨.block, none, none, [node]⟩)
    (opened : ∀ bound function state rest, others.length ≤ bound →
      state.function = some function → state.unread = word :: (others ++ rest) →
      command.Follows rest →
      Performs (Statement.opened (Statement.statementWithin bound) begins) effect function state
        rest)
    (admits : ∀ allowed : ParseError → Prop, (∀ error, error.IsSemantic → allowed error) →
      (∀ read ∈ others, read.kind = .number → Literal.Tolerated allowed read.text) →
      effect.Admits allowed (Strays · command)) :
    Does (word :: others) command effect := by
  refine .intro (by rw [isWord]; simp) wraps ?_ fun allowed semantic numbers =>
    admits allowed semantic fun read member => numbers read (List.mem_cons_of_mem _ member)
  rintro bound function state rest ⟨enough, inside, unread, follows⟩
  rw [Performs, statementWithin_opened bound isWord unread]
  exact opened bound function state rest (Nat.le_of_succ_le_succ enough) inside unread follows

theorem inLoop_performs {parser : Parse Node} {effect : Effect Node} {function : Enclosing}
    {state : State} {rest : List Token}
    (ran : Performs parser effect function { state with loopDepth := state.loopDepth + 1 } rest) :
    outcome (Parse.inLoop parser) state =
      effect function (state.loopDepth + 1) state.scope >>= fun found =>
        .ok (found.1, state.past rest found.2) := by
  rw [outcome_inLoop, ran, bind_assoc]
  rfl

/-! One lemma for every production. -/

theorem does_branch {word : Token} {tests tokens : List Token} {test : Phrase} {chosen : Command}
    {effect : Effect Node} (isIf : word.toLexeme = .keyword "if") (isTest : Condition tests test)
    (inner : Does tokens chosen effect) :
    Does (word :: tests ++ tokens) (.branch test chosen)
      (.branch test (effect.embodied chosen)) := by
  rw [List.cons_append]
  refine .ofWord .branches isIf (fun _ => rfl) ?_ fun allowed semantic numbers => ?_
  · intro bound function state rest enough inside unread follows
    simp only [List.append_assoc, List.length_append] at unread enough
    have tested := condition_parses isTest (state.behind_unread (tests ++ (tokens ++ rest)))
      "after 'if'" "after if condition"
    have chose : Performs _ _ function (state.behind (tokens ++ rest)) rest :=
      inner.body ⟨show _ ≤ bound by omega, inside, rfl, fun _ => follows rfl⟩
    rw [Performs] at chose ⊢
    simp [Statement.opened, Statement.branches, outcome_advance unread, tested, chose,
      accept_no_else (follows rfl), Effect.branch]
  · obtain ⟨inTests, inTokens⟩ := List.forall_mem_append.mp numbers
    exact Effect.branch_admits semantic isTest inTests
      (Effect.embodied_admits (inner.admits semantic inTokens))

theorem does_branchElse {word other : Token} {tests first second : List Token} {test : Phrase}
    {chosen alternative : Command} {effect otherwise : Effect Node}
    (isIf : word.toLexeme = .keyword "if") (isTest : Condition tests test)
    (inner : Does first chosen effect) (closed : chosen.endsOpen = false)
    (isElse : other.toLexeme = .keyword "else") (outer : Does second alternative otherwise) :
    Does (word :: tests ++ first ++ other :: second) (.branchElse test chosen alternative)
      (.branchElse test (effect.embodied chosen) (otherwise.embodied alternative)) := by
  rw [List.append_assoc, List.cons_append]
  refine .ofWord .branches isIf (fun _ => rfl) ?_ fun allowed semantic numbers => ?_
  · intro bound function state rest enough inside unread follows
    simp only [List.append_assoc, List.cons_append, List.length_append, List.length_cons]
      at unread enough
    have tested := condition_parses isTest
      (state.behind_unread (tests ++ (first ++ other :: (second ++ rest))))
      "after 'if'" "after if condition"
    have chose : Performs _ _ function (state.behind (first ++ other :: (second ++ rest)))
        (other :: (second ++ rest)) :=
      inner.body ⟨show _ ≤ bound by omega, inside, rfl, fun isOpen => by simp [closed] at isOpen⟩
    have decided (scope : Scope) : Performs _ _ function (state.past (second ++ rest) scope) rest :=
      outer.body ⟨show _ ≤ bound by omega, inside, rfl, follows⟩
    have accepted (scope : Scope) :=
      outcome_accept (state.past_unread (other :: (second ++ rest)) scope) isElse
    simp only [Performs] at chose decided ⊢
    simp [Statement.opened, Statement.branches, outcome_advance unread, tested, chose, accepted,
      decided, Effect.branchElse]
  · obtain ⟨inTests, inTokens⟩ := List.forall_mem_append.mp numbers
    obtain ⟨inFirst, inSecond⟩ := List.forall_mem_append.mp inTokens
    exact Effect.branchElse_admits semantic isTest inTests
      (Effect.embodied_admits (inner.admits semantic inFirst))
      (Effect.embodied_admits (outer.admits semantic (List.forall_mem_cons.mp inSecond).2))

theorem does_whileLoop {word : Token} {tests tokens : List Token} {test : Phrase}
    {repeated : Command} {effect : Effect Node} (isWhile : word.toLexeme = .keyword "while")
    (isTest : Condition tests test) (inner : Does tokens repeated effect) :
    Does (word :: tests ++ tokens) (.whileLoop test repeated)
      (.whileLoop test (effect.embodied repeated)) := by
  rw [List.cons_append]
  refine .ofWord .repeatsWhile isWhile (fun _ => rfl) ?_ fun allowed semantic numbers => ?_
  · intro bound function state rest enough inside unread follows
    simp only [List.append_assoc, List.length_append] at unread enough
    have tested := condition_parses isTest (state.behind_unread (tests ++ (tokens ++ rest)))
      "after 'while'" "after while condition"
    have ran : Performs _ _ function
        { state.behind (tokens ++ rest) with loopDepth := state.loopDepth + 1 } rest :=
      inner.body ⟨show _ ≤ bound by omega, inside, rfl, follows⟩
    have looped := inLoop_performs ran
    simp [-outcome_inLoop, Performs, Statement.opened, Statement.repeatsWhile,
      outcome_advance unread, tested, looped, Effect.whileLoop]
  · obtain ⟨inTests, inTokens⟩ := List.forall_mem_append.mp numbers
    exact Effect.whileLoop_admits semantic isTest inTests
      (Effect.embodied_admits (inner.admits semantic inTokens))

theorem does_doLoop {word other semicolon : Token} {tests tokens : List Token} {test : Phrase}
    {repeated : Command} {effect : Effect Node} (isDo : word.toLexeme = .keyword "do")
    (inner : Does tokens repeated effect) (isWhile : other.toLexeme = .keyword "while")
    (isTest : Condition tests test) (isEnd : semicolon.toLexeme = .punctuation ";") :
    Does (word :: tokens ++ other :: tests ++ [semicolon]) (.doLoop repeated test)
      (.doLoop (effect.embodied repeated) test) := by
  rw [List.append_assoc, List.cons_append, List.cons_append]
  refine .ofWord .repeatsDo isDo (fun _ => rfl) ?_ fun allowed semantic numbers => ?_
  · intro bound function state rest enough inside unread _
    simp only [List.append_assoc, List.cons_append, List.nil_append, List.length_append]
      at unread enough
    have apart : repeated.Follows (other :: (tests ++ semicolon :: rest)) := by
      rintro _ token ⟨⟩
      rw [isWhile]
      decide
    have ran : Performs _ _ function
        { state.behind (tokens ++ other :: (tests ++ semicolon :: rest)) with
          loopDepth := state.loopDepth + 1 } (other :: (tests ++ semicolon :: rest)) :=
      inner.body ⟨show _ ≤ bound by omega, inside, rfl, apart⟩
    have looped := inLoop_performs ran
    have again (scope : Scope) := outcome_expect
      (state.past_unread (other :: (tests ++ semicolon :: rest)) scope) isWhile "after do body"
    have tested (scope : Scope) := condition_parses isTest
      (state.past_unread (tests ++ semicolon :: rest) scope) "after 'while'"
      "after do-while condition"
    have ended (scope : Scope) :=
      outcome_expect (state.past_unread (semicolon :: rest) scope) isEnd "after do-while"
    simp [-outcome_inLoop, Performs, Statement.opened, Statement.repeatsDo, expectPunctuation,
      outcome_advance unread, looped, again, tested, ended, Effect.doLoop]
  · obtain ⟨inTokens, others⟩ := List.forall_mem_append.mp numbers
    obtain ⟨inTests, _⟩ := List.forall_mem_append.mp (List.forall_mem_cons.mp others).2
    exact Effect.doLoop_admits semantic isTest inTests
      (Effect.embodied_admits (inner.admits semantic inTokens))

theorem does_jump (begins : StatementWord) {tag : Tag} {command : Command} {word semicolon : Token}
    (isWord : word.toLexeme = .keyword begins.spelling)
    (isEnd : semicolon.toLexeme = .punctuation ";")
    (wraps : ∀ node, command.body node = ⟨.block, none, none, [node]⟩)
    (jumps : ∀ statement, Statement.opened statement begins = do
      let token ← Parse.advance
      Statement.jump tag token)
    (strays : Strays begins.spelling command) :
    Does [word, semicolon] command (.jump tag word) := by
  refine .ofWord begins isWord wraps ?_ fun allowed semantic numbers => ?_
  · intro bound function state rest _ _ unread _
    have ended := outcome_expect (state.behind_unread (semicolon :: rest)) isEnd
      ("after '" ++ word.text ++ "'")
    have spread : state.unread = word :: semicolon :: rest := unread
    rw [Performs, jumps]
    simp only [Statement.jump, outcome_bind, outcome_advance spread, ok_bind, outcome_loopDepth,
      outcome_ite, outcome_raise, expectPunctuation, State.behind_loopDepth, ended, outcome_pure,
      Effect.jump]
    split <;> rfl
  · refine Effect.jump_admits ?_
    rwa [show word.text = begins.spelling by rw [isWord]; rfl]

theorem does_returned {word semicolon : Token} (isWord : word.toLexeme = .keyword "return")
    (isEnd : semicolon.toLexeme = .punctuation ";") :
    Does [word, semicolon] .returned (.returned word) := by
  refine .ofWord .returns isWord (fun _ => rfl) ?_ fun _ semantic _ =>
    Effect.returned_admits semantic word
  intro bound function state rest _ inside unread _
  have spread : state.unread = word :: semicolon :: rest := unread
  have ended := outcome_expect (state.behind_unread (semicolon :: rest)) isEnd "after return"
  have next : (state.behind (semicolon :: rest)).next = semicolon := rfl
  simp only [Performs, Statement.opened, Statement.returns, Statement.returnValue, outcome_bind,
    outcome_advance spread, ok_bind, outcome_enclosing, State.behind_function, inside, outcome_peek,
    outcome_sees, next, isEnd, decide_true, Effect.returned]
  cases function.returnType with
  | none => simp [expectPunctuation, ended, ← State.behind_eq_past]
  | some type => simp

theorem does_returnedValue {word semicolon : Token} {tokens : List Token} {value : Phrase}
    (isWord : word.toLexeme = .keyword "return")
    (derives : Phrase.Derives .expression tokens [value])
    (isEnd : semicolon.toLexeme = .punctuation ";") :
    Does (word :: tokens ++ [semicolon]) (.returnedValue value) (.returnedValue value) := by
  rw [List.cons_append]
  refine .ofWord .returns isWord (fun _ => rfl) ?_ fun _ semantic numbers =>
    Effect.returnedValue_admits semantic derives fun token member =>
      numbers token (by simp [member])
  intro bound function state rest _ inside unread _
  simp only [List.append_assoc, List.cons_append, List.nil_append] at unread
  have start := Phrase.next_eq_start (state.behind_unread (tokens ++ semicolon :: rest)) derives
  have noEnd := opens_not_mark derives.start.2 (show ";" ≠ "(" by decide)
  have typed (type : DataType) := ofType_parses derives
    (state.behind_unread (tokens ++ semicolon :: rest))
    (Phrase.ends_punctuation isEnd (by decide)) type "return value"
  have ended := outcome_expect (state.behind_unread (semicolon :: rest)) isEnd "after return"
  simp only [Performs, Statement.opened, Statement.returns, Statement.returnValue, outcome_bind,
    outcome_advance unread, ok_bind, outcome_enclosing, State.behind_function, inside, outcome_peek,
    outcome_sees, start, noEnd, decide_false, Effect.returnedValue]
  cases function.returnType with
  | none => simp
  | some type => simp [expectPunctuation, typed, ended, ← State.behind_eq_past]

/-! Statements that no statement word opens. -/

theorem statementWithin_declaration {state : State} {word name : Token} {others : List Token}
    {type : DataType} (bound : Nat) (names : word.Declares type) (isName : name.kind = .identifier)
    (unread : state.unread = word :: name :: others) :
    outcome (Statement.statementWithin (bound + 1)) state =
      outcome Statement.localDeclaration state := by
  have next := State.next_cons unread
  obtain ⟨opensNothing, other⟩ := typeWords_open_nothing _ (declares_word names)
  simp only [List.mem_cons, not_or] at other
  rcases names.1 with kind | kind
  · simp [Statement.statementWithin, Statement.keyword, next, kind, opensNothing, other]
  · have noBlock : state.next.toLexeme ≠ .punctuation "\x7b" := by
      intro same
      rw [next] at same
      simp [same] at kind
    simp [Statement.statementWithin, Statement.plain, outcome_accept_other noBlock, next, kind,
      unread, isName]

theorem statementWithin_expression {state : State} {tokens rest : List Token} {semicolon : Token}
    {phrase : Phrase} (bound : Nat) (derives : Phrase.Derives .expression tokens [phrase])
    (isEnd : semicolon.toLexeme = .punctuation ";")
    (unread : state.unread = tokens ++ semicolon :: rest) :
    outcome (Statement.statementWithin (bound + 1)) state = outcome Statement.expression state := by
  have next := Phrase.next_eq_start unread derives
  have noKeyword := opens_not_keyword derives.start.2
  have noBlock : state.next.toLexeme ≠ .punctuation "\x7b" :=
    next ▸ opens_not_mark derives.start.2 (by decide)
  have noName : ¬ (phrase.start.kind = .identifier ∧
      state.unread[1]?.any (fun token => decide (token.kind = .identifier)) = true) := by
    rintro ⟨named, ahead⟩
    obtain ⟨second, others, spread, isName⟩ := State.unread_of_ahead ahead
    rw [next] at spread
    refine second_not_identifier derives (unread.symm.trans spread) named ?_ (by simpa using isName)
    rintro token ⟨⟩
    simp [isEnd]
  simp only [Statement.statementWithin, Statement.plain, outcome_bind, outcome_peek, ok_bind,
    outcome_ite, next, noKeyword, ↓reduceIte, outcome_accept_other noBlock, Bool.false_eq_true,
    outcome_seesIdentifierAhead, noName]

theorem declares_not_mark {word : Token} {type : DataType} (names : word.Declares type)
    (mark : String) : word.toLexeme ≠ .punctuation mark := by
  intro same
  rcases names.1 with kind | kind <;> simp [same] at kind

theorem does_declared {word name semicolon : Token} {type : DataType} (names : word.Declares type)
    (isName : name.kind = .identifier) (isEnd : semicolon.toLexeme = .punctuation ";") :
    Does [word, name, semicolon] (.declared type name) (.declared type name) := by
  refine .intro (declares_not_mark names _) (fun _ => rfl) ?_ fun _ semantic _ =>
    Effect.declared_admits semantic type name
  rintro bound function state rest ⟨_, _, unread, _⟩
  have spread : state.unread = word :: name :: semicolon :: rest := unread
  have typed := declaredType_of_declares spread names isName
  have named := outcome_expectIdentifier (state.behind_unread (name :: semicolon :: rest)) isName
  have next : (state.behind (semicolon :: rest)).next = semicolon := rfl
  have unset : outcome (accept (.operator "=")) (state.behind (semicolon :: rest)) =
      .ok (false, state.behind (semicolon :: rest)) :=
    outcome_accept_other (by rw [next, isEnd]; decide)
  have ended := outcome_expect (state.behind_unread (semicolon :: rest)) isEnd
    "after variable declaration"
  rw [Performs, statementWithin_declaration bound names isName spread]
  simp [Statement.localDeclaration, typed, named, next, isEnd, unset, expectPunctuation, ended,
    Effect.declared]
  rfl

theorem does_initialized {word name mark semicolon : Token} {type : DataType}
    {tokens : List Token} {value : Phrase} (names : word.Declares type)
    (isName : name.kind = .identifier) (isMark : mark.toLexeme = .operator "=")
    (derives : Phrase.Derives .expression tokens [value])
    (isEnd : semicolon.toLexeme = .punctuation ";") :
    Does (word :: name :: mark :: tokens ++ [semicolon]) (.initialized type name value)
      (.initialized type name value) := by
  refine .intro (declares_not_mark names _) (fun _ => rfl) ?_ fun _ semantic numbers =>
    Effect.initialized_admits semantic derives
      (fun token member => numbers token (by simp [member])) type name
  rintro bound function state rest ⟨_, _, unread, _⟩
  have spread : state.unread = word :: name :: mark :: (tokens ++ semicolon :: rest) := by
    simpa using unread
  have typed := declaredType_of_declares spread names isName
  have named := outcome_expectIdentifier
    (state.behind_unread (name :: mark :: (tokens ++ semicolon :: rest))) isName
  have next : (state.behind (mark :: (tokens ++ semicolon :: rest))).next = mark := rfl
  have set := outcome_accept (state.behind_unread (mark :: (tokens ++ semicolon :: rest))) isMark
  have valued := ofType_parses derives (state.behind_unread (tokens ++ semicolon :: rest))
    (Phrase.ends_punctuation isEnd (by decide)) type "initializer"
  have ended := outcome_expect (state.behind_unread (semicolon :: rest)) isEnd
    "after variable declaration"
  rw [Performs, statementWithin_declaration bound names isName spread]
  simp [Statement.localDeclaration, typed, named, next, isMark, set, valued, expectPunctuation,
    ended, Effect.initialized]
  rfl

theorem does_expression {semicolon : Token} {tokens : List Token} {phrase : Phrase}
    (derives : Phrase.Derives .expression tokens [phrase])
    (isEnd : semicolon.toLexeme = .punctuation ";") :
    Does (tokens ++ [semicolon]) (.expression phrase) (.expression phrase) := by
  obtain ⟨⟨others, rfl⟩, opens⟩ := derives.start
  refine .intro (opens_not_mark opens (by decide)) (fun _ => rfl) ?_ fun _ semantic numbers =>
    Effect.expression_admits semantic derives fun token member =>
      numbers token (List.mem_append_left [semicolon] member)
  rintro bound function state rest ⟨_, _, unread, _⟩
  have spread : state.unread = (phrase.start :: others) ++ semicolon :: rest := by
    simpa using unread
  have parses := Phrase.operand_parses derives spread
    (Phrase.ends_punctuation isEnd (by decide))
  have ended := outcome_expect (state.behind_unread (semicolon :: rest)) isEnd "after expression"
  rw [Phrase.Parses] at parses
  rw [Performs, statementWithin_expression bound derives isEnd spread]
  simp only [Statement.expression, outcome_bind, parses, bind_assoc, ok_bind, outcome_ofExcept,
    expectPunctuation, ended, State.behind_behind, outcome_ite, outcome_pure, Effect.expression,
    Node.asStatement, pure_ok]
  congr 1
  funext found
  congr 1
  funext node
  split <;> rfl

/-! Several statements. -/

/-- A parser of statements that covers all texts up to a length, so far as there is so much left
to read. -/
def Covers (parser : Parse Node) (length : Nat) : Prop :=
  ∀ state, ∃ bound, (∀ size ≤ length, size ≤ state.unread.length → size ≤ bound) ∧
    outcome parser state = outcome (Statement.statementWithin bound) state

theorem covers_statementWithin (bound : Nat) : Covers (Statement.statementWithin bound) bound :=
  fun _ => ⟨bound, fun _ fits _ => fits, rfl⟩

theorem covers_statement (length : Nat) : Covers Statement.statement length :=
  fun state => ⟨state.unread.length, fun _ _ fits => fits, by simp [Statement.statement]⟩

/-- What the tokens of several commands do in front of a closing brace. -/
structure DoesAll (tokens : List Token) (commands : List Command) (effect : Effect (List Node)) :
    Prop where
  sequence {parser : Parse Node} {length fuel : Nat} {function : Enclosing} {state : State}
    {closing : Token} {rest : List Token} : Covers parser length → tokens.length ≤ length →
    tokens.length ≤ fuel → state.function = some function →
    state.unread = tokens ++ closing :: rest → closing.toLexeme = .punctuation "\x7d" →
    Performs (Statement.sequence parser fuel) effect function state (closing :: rest)
  admits {allowed : ParseError → Prop} :
    (∀ error, error.IsSemantic → allowed error) →
    (∀ token ∈ tokens, token.kind = .number → Literal.Tolerated allowed token.text) →
    effect.Admits allowed (StraysAmong · commands)
  begins : ∀ token ∈ tokens.head?, token.toLexeme ≠ .keyword "else"

theorem doesAll_nothing : DoesAll [] [] .nothing := by
  refine ⟨?_, fun _ _ => Effect.nothing_admits, nofun⟩
  intro parser length fuel function state closing rest _ _ _ _ unread isClosing
  have next := State.next_cons unread
  have same := State.past_self (show state.unread = closing :: rest from unread)
  cases fuel with
  | zero => simp [Performs, Statement.sequence, Effect.nothing, same]
  | succ fuel => simp [Performs, Statement.sequence, Effect.nothing, next, isClosing, same]

theorem doesAll_further {first others : List Token} {command : Command} {commands : List Command}
    {effect : Effect Node} {further : Effect (List Node)}
    (derives : Derives Token.Declares .statement first [command])
    (one : Does first command effect) (more : DoesAll others commands further) :
    DoesAll (first ++ others) (command :: commands) (.further effect further) := by
  obtain ⟨token, behind, rfl, noElse, noClosing⟩ := derives.begins
  refine ⟨?_, ?_, ?_⟩
  · intro parser length fuel function state closing rest covers short enough inside unread isClosing
    simp only [List.cons_append, List.length_cons, List.length_append, List.append_assoc]
      at short enough unread
    obtain ⟨fuel, rfl⟩ := Nat.exists_eq_succ_of_ne_zero (show fuel ≠ 0 by omega)
    obtain ⟨bound, fits, agrees⟩ := covers state
    have enoughBound : (token :: behind).length ≤ bound := by
      refine fits _ (by simp; omega) ?_
      simp only [unread, List.length_cons, List.length_append]
      omega
    have follows : command.Follows (others ++ closing :: rest) := by
      intro _ next head
      cases others with
      | nil =>
          obtain rfl : closing = next := by simpa using head
          rw [isClosing]
          decide
      | cons second others => exact more.begins next head
    have ran := one.statement ⟨enoughBound, inside, unread, follows⟩
    have rested (scope : Scope) : Performs _ _ function
        (state.past (others ++ closing :: rest) scope) (closing :: rest) :=
      more.sequence covers (show _ ≤ length by omega) (show _ ≤ fuel by omega) inside rfl isClosing
    have next := State.next_cons unread
    have left : state.unread ≠ [] := by simp [unread]
    simp only [Performs] at ran rested ⊢
    simp [Statement.sequence, next, noClosing, left, agrees, ran, rested, Effect.further]
  · intro allowed semantic numbers
    obtain ⟨inFirst, inOthers⟩ := List.forall_mem_append.mp numbers
    exact Effect.further_admits (one.admits semantic inFirst) (more.admits semantic inOthers)
  · rintro next ⟨⟩
    exact noElse

theorem DoesAll.braced {tokens rest : List Token} {commands : List Command}
    {effect : Effect (List Node)} {parser : Parse Node} {length : Nat} {function : Enclosing}
    {state : State} {closing : Token} (all : DoesAll tokens commands effect)
    (covers : Covers parser length) (short : tokens.length ≤ length)
    (inside : state.function = some function) (unread : state.unread = tokens ++ closing :: rest)
    (isClosing : closing.toLexeme = .punctuation "\x7d") (context : String) :
    Performs (Statement.braced parser context) effect function state rest := by
  have enough : tokens.length ≤ state.unread.length := by simp [unread]
  have ran := all.sequence covers short enough inside unread isClosing
  have closed (scope : Scope) :=
    outcome_expect (state.past_unread (closing :: rest) scope) isClosing context
  rw [Performs] at ran ⊢
  simp [Statement.braced, ran, expectPunctuation, closed]

theorem does_block {opening closing : Token} {tokens : List Token} {commands : List Command}
    {effect : Effect (List Node)} (isOpening : opening.toLexeme = .punctuation "\x7b")
    (all : DoesAll tokens commands effect) (isClosing : closing.toLexeme = .punctuation "\x7d") :
    Does (opening :: tokens ++ [closing]) (.block commands) (.block effect) := by
  have block {bound : Nat} {function : Enclosing} {state : State} (rest : List Token)
      (inside : state.function = some function) (short : tokens.length ≤ bound) :
      Performs (Statement.block (Statement.statementWithin bound)) effect.block function
        (state.behind (tokens ++ closing :: rest)) rest := by
    have within : (state.behind (tokens ++ closing :: rest)).function = some function := inside
    have ran := all.braced (covers_statementWithin bound) short within rfl isClosing "after block"
    rw [Performs] at ran ⊢
    simp [Statement.block, ran, Effect.block]
  have accepted {state : State} {rest : List Token}
      (unread : state.unread = opening :: tokens ++ [closing] ++ rest) :
      outcome (accept (.punctuation "\x7b")) state =
        .ok (true, state.behind (tokens ++ closing :: rest)) :=
    outcome_accept (by simpa using unread) isOpening
  refine ⟨?_, ?_, fun semantic numbers => ?_⟩
  · rintro bound function state rest ⟨enough, inside, unread, _⟩
    simp only [List.cons_append, List.length_cons, List.length_append] at enough
    obtain ⟨bound, rfl⟩ := Nat.exists_eq_succ_of_ne_zero (show bound ≠ 0 by omega)
    have next : state.next = opening := State.next_cons unread
    have noKeyword : opening.kind ≠ .keyword := by
      intro kind
      simp [isOpening] at kind
    have ran := block rest inside (show _ ≤ bound by omega)
    rw [Performs] at ran ⊢
    simp [Statement.statementWithin, Statement.plain, next, noKeyword, accepted unread, ran]
  · rintro bound function state rest ⟨enough, inside, unread, _⟩
    simp only [List.cons_append, List.length_cons, List.length_append] at enough
    have ran := block rest inside (show _ ≤ bound by omega)
    rw [Performs] at ran ⊢
    simp [Statement.body, accepted unread, ran, Effect.embodied, body]
  · have inner := (List.forall_mem_append.mp numbers).1
    exact Effect.block_admits (all.admits semantic (List.forall_mem_cons.mp inner).2)

def Runs : Symbol → List Token → List Command → Prop
  | .statement, tokens, [command] => ∃ effect, Does tokens command effect
  | .sequence, tokens, commands => ∃ effect, DoesAll tokens commands effect
  | _, _, _ => True

theorem runs_of_derives {symbol : Symbol} {tokens : List Token} {commands : List Command}
    (derives : Derives Token.Declares symbol tokens commands) : Runs symbol tokens commands := by
  induction derives with
  | none => exact ⟨_, doesAll_nothing⟩
  | further derives _ first others =>
      obtain ⟨_, one⟩ := first
      obtain ⟨_, more⟩ := others
      exact ⟨_, doesAll_further derives one more⟩
  | declared names isName isEnd => exact ⟨_, does_declared names isName isEnd⟩
  | initialized names isName isMark derives isEnd =>
      exact ⟨_, does_initialized names isName isMark derives isEnd⟩
  | returned isWord isEnd => exact ⟨_, does_returned isWord isEnd⟩
  | returnedValue isWord derives isEnd => exact ⟨_, does_returnedValue isWord derives isEnd⟩
  | branch isIf isTest _ ih =>
      obtain ⟨_, inner⟩ := ih
      exact ⟨_, does_branch isIf isTest inner⟩
  | branchElse isIf isTest _ closed isElse _ first second =>
      obtain ⟨_, inner⟩ := first
      obtain ⟨_, outer⟩ := second
      exact ⟨_, does_branchElse isIf isTest inner closed isElse outer⟩
  | whileLoop isWhile isTest _ ih =>
      obtain ⟨_, inner⟩ := ih
      exact ⟨_, does_whileLoop isWhile isTest inner⟩
  | doLoop isDo _ isWhile isTest isEnd ih =>
      obtain ⟨_, inner⟩ := ih
      exact ⟨_, does_doLoop isDo inner isWhile isTest isEnd⟩
  | breakLoop isWord isEnd =>
      exact ⟨_, does_jump .breaks isWord isEnd (fun _ => rfl) (fun _ => rfl)
        (.breakLoop rfl)⟩
  | continueLoop isWord isEnd =>
      exact ⟨_, does_jump .continues isWord isEnd (fun _ => rfl) (fun _ => rfl)
        (.continueLoop rfl)⟩
  | block isOpening _ isClosing ih =>
      obtain ⟨_, all⟩ := ih
      exact ⟨_, does_block isOpening all isClosing⟩
  | expression derives isEnd => exact ⟨_, does_expression derives isEnd⟩

end Command

end ScalarC
