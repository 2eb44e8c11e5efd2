import ScalarC.Proofs.Command.Loops
import ScalarC.Proofs.Cursor.Origins

/-!
What is open where a parse comes. A statement it comes to stands in a function,
in as many loops as the statements around it that open with `while` or `do`; that
it is inside of them is told by the calls of the parser. The state counts just
these loops, a scope and a function are open there, and nothing is left open for
the next declaration.
-/

namespace ScalarC

open Parse

/-- The statements a run of the module comes to, each in the state it comes to it in, with the
number of loops around it. -/
inductive Program.Reaches (start : State) : Nat → State → Prop where
  | function {state : State} :
      Enters (fun statement => { Declaration.parts with statement }.module) Statement.statement
        start state →
      Reaches start 0 state
  | inside {loops : Nat} {state entered : State} :
      Reaches start loops state → Enters Statement.step Statement.statement state entered →
      Reaches start (loops + state.next.loops) entered

/-- What is open where a parse calls for a declaration, for the scope of a function, for what
stands in it, and for its end; and which jumps it refuses. -/
structure Program.Brackets (tokens : List Token) (start : State) : Prop where
  declaration : ∀ {state : State},
    Enters moduleOf Declaration.declaration start state → state.Within .module 0
  enter : ∀ {state : State},
    Enters (fun enter => { Declaration.parts with enter }.module) Declaration.enterFunction
      start state → state.Within .module 0
  given : ∀ {state : State},
    Enters (fun given => { Declaration.parts with given }.module) Declaration.parameters
      start state → state.Within .header 0
  statement : ∀ {loops : Nat} {state : State},
    Reaches start loops state → state.Within .body loops
  leave : ∀ {state : State},
    Enters (fun leave => { Declaration.parts with leave }.module) Declaration.exitFunction
      start state → state.Within .header 0
  ends : ∀ {tree : Node} {after : State},
    Program.module start = .ok tree after → after.Within .module 0
  jump : ∀ {loops : Nat} {state : State} {word : String}, Reaches start loops state →
    word = "break" ∨ word = "continue" → state.next.toLexeme = .keyword word →
      (outcome Statement.statement state =
        .error (.malformed (.jumpOutsideLoop word) state.next.location) ↔ loops = 0)
  fails : ∀ {loops : Nat} {state : State} {error : ParseError}, Reaches start loops state →
    outcome Statement.statement state = .error error → parse tokens = .error error

/-- The body of a loop is called one loop further in than the loop is. Its condition is not, and
neither is an expression inside of another one. -/
structure Statement.CountsLoops : Prop where
  whileTest : ∀ {loops : Nat} {state entered : State}, state.Within .body loops →
    Enters (whileOf · (body statement)) (condition "after 'while'" "after while condition")
      state entered → entered.Within .body loops
  whileBody : ∀ {loops : Nat} {state entered : State}, state.Within .body loops →
    Enters (whileOf (condition "after 'while'" "after while condition")) (body statement)
      state entered → entered.Within .body (loops + 1)
  doBody : ∀ {loops : Nat} {state entered : State}, state.Within .body loops →
    Enters (doOf · (condition "after 'while'" "after do-while condition")) (body statement)
      state entered → entered.Within .body (loops + 1)
  doTest : ∀ {loops : Nat} {state entered : State}, state.Within .body loops →
    Enters (doOf (body statement)) (condition "after 'while'" "after do-while condition")
      state entered → entered.Within .body loops
  operand : ∀ {place : Surrounding} {loops : Nat} {state entered : State},
    state.Within place loops → Enters Expression.step Expression.operand state entered →
      entered.Within place loops

/-- The parsers are those that are given what they call. -/
structure Program.Unfolds : Prop where
  module : Program.module = moduleOf Declaration.declaration
  parts : Program.module = Declaration.parts.module
  statement : ∀ state,
    outcome Statement.statement state = outcome (Statement.step Statement.statement) state
  whileLoop : ∀ statement, Statement.repeatsWhile statement =
    Statement.whileOf (Statement.condition "after 'while'" "after while condition")
      (Statement.body statement)
  doLoop : ∀ statement, Statement.repeatsDo statement =
    Statement.doOf (Statement.body statement)
      (Statement.condition "after 'while'" "after do-while condition")
  operand : ∀ state,
    outcome Expression.operand state = outcome (Expression.step Expression.operand) state

/-- The functions of statements and of expressions, called with the bounds of what is inside. -/
inductive Parse.IsCall : {α : Type} → Parse α → Prop where
  | statement (bound : Nat) : IsCall (Statement.statementWithin bound)
  | keyword (bound : Nat) (text : String) :
      IsCall (Statement.keyword (Statement.statementWithin bound) text)
  | opened (bound : Nat) (word : StatementWord) :
      IsCall (Statement.opened (Statement.statementWithin bound) word)
  | plain (bound : Nat) : IsCall (Statement.plain (Statement.statementWithin bound))
  | sequence (bound count : Nat) :
      IsCall (Statement.sequence (Statement.statementWithin bound) count)
  | braced (bound : Nat) (context : String) :
      IsCall (Statement.braced (Statement.statementWithin bound) context)
  | block (bound : Nat) : IsCall (Statement.block (Statement.statementWithin bound))
  | body (bound : Nat) : IsCall (Statement.body (Statement.statementWithin bound))
  | branches (bound : Nat) : IsCall (Statement.branches (Statement.statementWithin bound))
  | repeatsWhile (bound : Nat) : IsCall (Statement.repeatsWhile (Statement.statementWithin bound))
  | repeatsDo (bound : Nat) : IsCall (Statement.repeatsDo (Statement.statementWithin bound))
  | condition (before after : String) : IsCall (Statement.condition before after)
  | localDeclaration : IsCall Statement.localDeclaration
  | returnValue (function : Enclosing) (place : Location) :
      IsCall (Statement.returnValue function place)
  | returns (place : Location) : IsCall (Statement.returns place)
  | jump (tag : Tag) (word : Token) : IsCall (Statement.jump tag word)
  | expression : IsCall Statement.expression
  | operand (bound : Nat) : IsCall (Expression.operandWithin bound)
  | assignment (bound : Nat) (form : Assignment) :
      IsCall (Expression.assignment (Expression.operandWithin bound) form)
  | storedValue (bound : Nat) (form : Assignment) (target : Variable) (place : Location) :
      IsCall (Expression.storedValue (Expression.operandWithin bound) form target place)
  | levels (bound : Nat) (table : List (List BinaryOperator)) :
      IsCall (Expression.levels (Expression.operandWithin bound) table)
  | chain (bound count : Nat) (level : List BinaryOperator) (left : Operand) :
      IsCall (Expression.chain level (Expression.operandWithin bound) count left)
  | unary (bound count : Nat) : IsCall (Expression.unary (Expression.operandWithin bound) count)
  | primary (bound : Nat) : IsCall (Expression.primary (Expression.operandWithin bound))
  | grouped (bound : Nat) : IsCall (Expression.grouped (Expression.operandWithin bound))
  | call (bound : Nat) : IsCall (Expression.call (Expression.operandWithin bound))
  | argumentList (bound : Nat) (name : String) (types : List DataType) :
      IsCall (Expression.argumentList (Expression.operandWithin bound) name types)
  | arguments (bound : Nat) (name : String) (position : Nat) (types : List DataType) :
      IsCall (Expression.arguments (Expression.operandWithin bound) name position types)
  | typed (bound : Nat) (expected : DataType) (context : String) :
      IsCall (Expression.typed (Expression.operandWithin bound) expected context)

namespace Program

theorem module_eq_parts : Program.module = Declaration.parts.module := by
  rw [module_eq, Declaration.declaration_eq, Declaration.Parts.module]

theorem unfolds : Unfolds where
  module := module_eq
  parts := module_eq_parts
  statement := Statement.statement_step
  whileLoop _ := rfl
  doLoop _ := rfl
  operand := Expression.operand_step

variable {start state : State} {loops : Nat}

theorem Reaches.within (reaches : Reaches start loops state) (begins : start.Within .module 0) :
    state.Within .body loops := by
  induction reaches with
  | function enters =>
      exact enters.holds begins .statement fun other called =>
        Declaration.Parts.Move.module { Declaration.Parts.move _ with statement := called }
  | inside _ enters ih => exact Statement.step_within ih enters

theorem Reaches.fails (reaches : Reaches start loops state) {error : ParseError}
    (failed : outcome Statement.statement state = .error error) :
    outcome Program.module start = .error error := by
  induction reaches with
  | function enters =>
      rw [module_eq_parts]
      exact enters.fails failed
  | inside _ enters ih =>
      apply ih
      rw [Statement.statement_step]
      exact enters.fails failed

end Program

namespace Statement

theorem jump_outside (tag : Tag) (word : Token) (state : State) :
    outcome (jump tag word) state =
      .error (.malformed (.jumpOutsideLoop word.text) word.location) ↔ state.loopDepth = 0 := by
  cases depth : state.loopDepth with
  | zero => simp [jump, depth]
  | succ count =>
      by_cases ends : state.next.toLexeme = .punctuation ";"
      · have present : state.next.kind ≠ .endOfInput := by rw [ends]; decide
        obtain ⟨rest, unread⟩ := State.unread_of_next_kind present
        simp [jump, depth, expectPunctuation, outcome_expect unread ends]
      · simp [jump, depth, expectPunctuation, expect, ends]

theorem statement_jump {state : State} {word : String} (isJump : word = "break" ∨ word = "continue")
    (next : state.next.toLexeme = .keyword word) :
    outcome statement state = .error (.malformed (.jumpOutsideLoop word) state.next.location) ↔
      state.loopDepth = 0 := by
  obtain ⟨tag, after, depth, same⟩ := statement_jumps isJump next
  have text : state.next.text = word := congrArg Lexeme.text next
  rw [same, ← depth, ← text]
  exact jump_outside tag state.next after

theorem countsLoops : CountsLoops := by
  have body : Moves (fun _ => False) .body .body (body statement) := Moves.steps.body .statement
  constructor
  · intro loops state entered within enters
    exact enters.holds within (Moves.steps.condition _ _) fun other called =>
      .whileOf called body fun _ => False.elim
  · intro loops state entered within enters
    have held := enters.holds within body fun other called =>
      .whileOf (Moves.steps.condition _ _) called fun _ => id
    exact held
  · intro loops state entered within enters
    have held := enters.holds within body fun other called =>
      .doOf called (Moves.steps.condition _ _) fun _ => id
    exact held
  · intro loops state entered within enters
    exact enters.holds within (Moves.steps.condition _ _) fun other called =>
      .doOf body called fun _ => False.elim
  · exact Expression.step_within

end Statement

theorem parse_eq_error {tokens : List Token} {start : State}
    (begun : State.ofTokens tokens = .ok start) {error : ParseError} :
    parse tokens = .error error ↔ outcome Program.module start = .error error := by
  rw [parse_eq_outcome, begun, ok_bind]
  cases outcome Program.module start <;> simp

theorem State.ofTokens_within {tokens : List Token} {start : State}
    (begun : State.ofTokens tokens = .ok start) : start.Within .module 0 := by
  obtain ⟨_, _, scope, function, loopDepth⟩ := State.ofTokens_eq_ok begun
  exact ⟨by simp [scope, Scope.empty], by simp [function], loopDepth⟩

theorem Program.brackets_of_ofTokens {tokens : List Token} {start : State}
    (begun : State.ofTokens tokens = .ok start) : Brackets tokens start := by
  have begins := State.ofTokens_within begun
  constructor
  · intro state enters
    exact enters.holds begins .declaration fun other called => .moduleOf called
  · intro state enters
    exact enters.holds begins .enterFunction fun other called =>
      Declaration.Parts.Move.module { Declaration.Parts.move _ with enter := called }
  · intro state enters
    exact enters.holds begins .parameters fun other called =>
      Declaration.Parts.Move.module { Declaration.Parts.move _ with given := called }
  · intro loops state reaches
    exact reaches.within begins
  · intro state enters
    exact enters.holds begins .exitFunction fun other called =>
      Declaration.Parts.Move.module { Declaration.Parts.move _ with leave := called }
  · intro tree after done
    rw [module_eq_parts] at done
    exact ((Declaration.Parts.move fun _ => False).module.ok begins done).1
  · intro loops state word reaches isJump next
    rw [Statement.statement_jump isJump next, (reaches.within begins).loopDepth]
  · intro loops state error reaches failed
    exact (parse_eq_error begun).mpr (reaches.fails failed)

/-- The last statement that a stray jump is refused for is the jump. -/
theorem Program.Reaches.origin {start state : State} {loops : Nat} {error : ParseError}
    (reaches : Reaches start loops state) (begins : start.Within .module 0)
    (stray : error.IsStray) (failed : outcome Statement.statement state = .error error) :
    ∃ jump word, Reaches start 0 jump ∧ (word = "break" ∨ word = "continue") ∧
      jump.next.toLexeme = .keyword word ∧
        error = .malformed (.jumpOutsideLoop word) jump.next.location := by
  induction count : state.unread.length using Nat.strongRecOn generalizing loops state with
  | ind count ih =>
      subst count
      rcases Statement.stray_origin stray failed with
        ⟨word, isJump, next, rfl⟩ | ⟨entered, enters, fails⟩
      · have outside := (Statement.statement_jump isJump next).mp failed
        obtain rfl : loops = 0 := (reaches.within begins).loopDepth.symm.trans outside
        exact ⟨state, word, reaches, isJump, next, rfl⟩
      · have shorter := Statement.step_shorter (Statement.present_of_stray stray failed) enters
        exact ih _ shorter (reaches.inside enters) fails rfl

theorem State.ofTokens_spares {tokens : List Token} {error : ParseError}
    (failed : State.ofTokens tokens = .error error) : ¬ error.IsStray := by
  rintro ⟨⟩
  unfold State.ofTokens at failed
  split at failed
  · cases failed
  · split at failed
    · cases failed
    · split at failed <;> cases failed

theorem Program.refuses_iff (tokens : List Token) (word : String) (place : Location) :
    parse tokens = .error (.malformed (.jumpOutsideLoop word) place) ↔
      ∃ start state, State.ofTokens tokens = .ok start ∧ Reaches start 0 state ∧
        (word = "break" ∨ word = "continue") ∧ state.next = ⟨.keyword word, place⟩ := by
  constructor
  · intro failed
    cases begun : State.ofTokens tokens with
    | error error =>
        obtain rfl : error = .malformed (.jumpOutsideLoop word) place := by
          simpa [parse, begun] using failed
        exact absurd .intro (State.ofTokens_spares begun)
    | ok start =>
        rw [parse_eq_error begun, module_eq_parts] at failed
        obtain ⟨state, enters, fails⟩ := Traces.module.error .intro failed
        obtain ⟨jump, same, reaches, isJump, next, is⟩ :=
          Reaches.origin (.function enters) (State.ofTokens_within begun) .intro fails
        cases is
        exact ⟨start, jump, rfl, reaches, isJump, by rw [← next]⟩
  · rintro ⟨start, state, begun, reaches, isJump, next⟩
    have brackets := brackets_of_ofTokens begun
    have refused := (brackets.jump reaches isJump (by rw [next])).mpr rfl
    rw [next] at refused
    exact brackets.fails reaches refused

theorem Parse.IsCall.built {α : Type} {call : Parse α} (isCall : IsCall call) : Built call := by
  have steps := Built.steps
  cases isCall with
  | statement bound => exact steps.statementWithin bound
  | keyword bound text => exact steps.keyword (steps.statementWithin bound) text
  | opened bound word => exact steps.opened (steps.statementWithin bound) word
  | plain bound => exact steps.plain (steps.statementWithin bound)
  | sequence bound count => exact steps.sequence (steps.statementWithin bound) count
  | braced bound context => exact steps.braced (steps.statementWithin bound) context
  | block bound => exact steps.block (steps.statementWithin bound)
  | body bound => exact steps.body (steps.statementWithin bound)
  | branches bound => exact steps.branches (steps.statementWithin bound)
  | repeatsWhile bound => exact steps.repeatsWhile (steps.statementWithin bound)
  | repeatsDo bound => exact steps.repeatsDo (steps.statementWithin bound)
  | condition before after => exact steps.condition before after
  | localDeclaration => exact steps.localDeclaration steps.declareLocal
  | returnValue function place => exact steps.returnValue function place
  | returns place => exact steps.returns place
  | jump tag word => exact steps.jump tag word
  | expression => exact steps.expression
  | operand bound => exact steps.operandWithin bound
  | assignment bound form => exact steps.assignment (steps.operandWithin bound) form
  | storedValue bound form target place =>
      exact steps.storedValue (steps.operandWithin bound) form target place
  | levels bound table => exact steps.levels (steps.operandWithin bound) table
  | chain bound count level left => exact steps.chain (steps.operandWithin bound) level count left
  | unary bound count => exact steps.unary (steps.operandWithin bound) count
  | primary bound => exact steps.primary (steps.operandWithin bound)
  | grouped bound => exact steps.grouped (steps.operandWithin bound)
  | call bound => exact steps.call (steps.operandWithin bound)
  | argumentList bound name types =>
      exact steps.argumentList (steps.operandWithin bound) name types
  | arguments bound name position types =>
      exact steps.arguments (steps.operandWithin bound) name position types
  | typed bound expected context => exact steps.typed (steps.operandWithin bound) expected context

/-- A parse counts the loops it is in. Where it comes to a statement, as many are counted as the
statement stands in, and the body of a loop is begun with one more; every function of statements
and expressions leaves the count as it was, also where it fails. The scope of a function is open
from its parameters to the end of its body and nowhere else, so a declaration begins with nothing
open, and a scope is entered where none is. So a jump is refused exactly where it stands in no
loop, and nothing else is refused as one; the jumps of a tree are in the blocks of its loops. -/
theorem parse_brackets (tokens : List Token) :
    (∀ start, State.ofTokens tokens = .ok start → Program.Brackets tokens start) ∧
      (∀ word place, parse tokens = .error (.malformed (.jumpOutsideLoop word) place) ↔
        ∃ start state, State.ofTokens tokens = .ok start ∧ Program.Reaches start 0 state ∧
          (word = "break" ∨ word = "continue") ∧ state.next = ⟨.keyword word, place⟩) ∧
      Statement.CountsLoops ∧
      (∀ {α : Type} {call : Parse α}, IsCall call →
        ∀ state, (final call state).loopDepth = state.loopDepth) ∧
      Program.Unfolds ∧
      ∀ module, parse tokens = .ok module → module.JumpsInLoops :=
  ⟨fun _ => Program.brackets_of_ofTokens, Program.refuses_iff tokens, Statement.countsLoops,
    fun isCall => isCall.built.loopDepth, Program.unfolds, fun _ => parsed_jumpsInLoops⟩

section Sample

def Program.heading : List Token :=
  [⟨.keyword "void", ⟨1, 1⟩⟩, ⟨⟨.identifier, "f"⟩, ⟨1, 6⟩⟩, ⟨.punctuation "(", ⟨1, 7⟩⟩,
    ⟨.punctuation ")", ⟨1, 8⟩⟩, ⟨.punctuation "\x7b", ⟨1, 10⟩⟩]

def Program.finish : Token := ⟨.endOfInput, ⟨2, 1⟩⟩

/-- In that function, with this left to read. -/
def Program.inBody (loops : Nat) (unread : List Token) : State :=
  ⟨unread, finish, ⟨[], [("f", ⟨none, []⟩)], some []⟩, some ⟨"f", none⟩, loops, rfl⟩

theorem Program.reaches_body {first : Token} {rest : List Token}
    (other : first.toLexeme ≠ .punctuation "\x7d") :
    Reaches ⟨heading ++ first :: rest, finish, Scope.empty, none, 0, rfl⟩ 0
      (inBody 0 (first :: rest)) := by
  apply Reaches.function
  -- The first declaration of the module is a function.
  refine .behind rfl (.first (.behind rfl (.first (.behind rfl (.behind rfl ?_)))))
  -- Its heading is read, and its scope is entered.
  refine .behind rfl (.behind rfl (.behind rfl (.behind rfl ?_)))
  refine .behind rfl (.behind rfl (.behind rfl (.first ?_)))
  -- In its braces the first statement comes next.
  refine .behind rfl (.behind rfl (.first (.behind rfl (.first (.behind rfl (.behind rfl ?_))))))
  exact .ite_neg (by simp [other]) (.first .here)

/-- `do while (1) break; while (1);` and the end of the function. -/
def Program.loops : List Token :=
  [⟨.keyword "do", ⟨1, 12⟩⟩, ⟨.keyword "while", ⟨1, 15⟩⟩, ⟨.punctuation "(", ⟨1, 21⟩⟩,
    ⟨⟨.number, "1"⟩, ⟨1, 22⟩⟩, ⟨.punctuation ")", ⟨1, 23⟩⟩, ⟨.keyword "break", ⟨1, 25⟩⟩,
    ⟨.punctuation ";", ⟨1, 30⟩⟩, ⟨.keyword "while", ⟨1, 32⟩⟩, ⟨.punctuation "(", ⟨1, 38⟩⟩,
    ⟨⟨.number, "1"⟩, ⟨1, 39⟩⟩, ⟨.punctuation ")", ⟨1, 40⟩⟩, ⟨.punctuation ";", ⟨1, 41⟩⟩,
    ⟨.punctuation "\x7d", ⟨1, 43⟩⟩]

/-- `break;` and the end of the function. -/
def Program.stray : List Token :=
  [⟨.keyword "break", ⟨1, 12⟩⟩, ⟨.punctuation ";", ⟨1, 17⟩⟩, ⟨.punctuation "\x7d", ⟨1, 19⟩⟩]

theorem Program.enters_do :
    Enters Statement.step Statement.statement (inBody 0 loops) (inBody 1 (loops.drop 1)) := by
  refine .behind rfl (.behind rfl (.first (.inLoop ?_)))
  exact .behind rfl (.first .here)

theorem Program.enters_while :
    Enters Statement.step Statement.statement (inBody 1 (loops.drop 1))
      (inBody 2 (loops.drop 5)) := by
  refine .behind rfl (.behind rfl (.behind rfl (.first (.inLoop ?_))))
  exact .behind rfl (.first .here)

def Program.jumping : List Token := heading ++ loops ++ [finish]

def Program.straying : List Token := heading ++ stray ++ [finish]

def Program.jumpingTree : Node :=
  let one : Node := ⟨.number, some (.int 1), some .i32, []⟩
  let jump : Node := ⟨.block, none, none, [⟨.breakLoop, none, none, []⟩]⟩
  let inner : Node := ⟨.block, none, none, [⟨.whileLoop, none, none, [one, jump]⟩]⟩
  ⟨.module, none, none,
    [⟨.function, some (.name "f"), none, [⟨.parameters, none, none, []⟩,
      ⟨.body, none, none, [⟨.doLoop, none, none, [inner, one]⟩]⟩]⟩]⟩

theorem Program.jumping_brackets :
    (∃ start inner, State.ofTokens jumping = .ok start ∧ Reaches start 2 inner ∧
      inner.next.toLexeme = .keyword "break" ∧ inner.Within .body 2 ∧
      outcome Statement.statement inner ≠
        .error (.malformed (.jumpOutsideLoop "break") inner.next.location)) ∧
    (parse jumping = .ok jumpingTree ∧ jumpingTree.JumpsInLoops ∧
      ∃ jump, jumpingTree.at? [0, 1, 0, 0, 0, 1, 0] = some jump ∧ jump.IsJump) ∧
    ∃ start inner, State.ofTokens straying = .ok start ∧ Reaches start 0 inner ∧
      inner.next.toLexeme = .keyword "break" ∧
      parse straying = .error (.malformed (.jumpOutsideLoop "break") ⟨1, 12⟩) := by
  have parsed : parse jumping = .ok jumpingTree := toOption_eq_some.mp (by decide +kernel)
  obtain ⟨brackets, _, _, _, _, tree⟩ := parse_brackets jumping
  have inside := ((reaches_body (by decide)).inside enters_do).inside enters_while
  have open_ := brackets _ rfl
  have refused := ((parse_brackets straying).2.1 "break" ⟨1, 12⟩).mpr
  have first : Reaches _ 0 (inBody 0 stray) := reaches_body (by decide)
  refine ⟨⟨_, _, rfl, inside, rfl, open_.statement inside, ?_⟩,
    ⟨parsed, tree _ parsed, _, rfl, .inl rfl⟩, _, _, rfl, first, rfl, ?_⟩
  · exact fun lacks => absurd ((open_.jump inside (.inl rfl) rfl).mp lacks) (by decide)
  · exact refused ⟨_, _, rfl, first, .inl rfl, rfl⟩

end Sample

end ScalarC
