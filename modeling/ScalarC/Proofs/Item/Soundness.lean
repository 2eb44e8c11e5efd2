import Mathlib.Data.List.Basic
import ScalarC.Parsing.Program
import ScalarC.Proofs.Command.Soundness
import ScalarC.Proofs.Item.Grammar
import ScalarC.Scanner.Tokens

/-!
What the parser accepts is a program of the grammar: all tokens but the end of
input derive its items, and its tree is that of their elaboration.
-/

namespace ScalarC

open Parse

namespace Item

theorem initializer_reads {type : DataType} {state after : State} {node : Node}
    (done : outcome (Declaration.initializer type) state = .ok (node, after)) :
    ∃ tokens literal, state.Reads tokens after ∧
      (∀ mark : Token, mark.toLexeme = .operator "=" → Value (mark :: tokens) (some literal)) ∧
      literal.node? type = some node := by
  simp only [Declaration.initializer, outcome_bind, outcome_peek, ok_bind, outcome_ite,
    outcome_fail, bind_eq_ok, Prod.exists] at done
  obtain ⟨negative, begun, accepted, done⟩ := done
  split at done
  · rename_i isNumber
    simp only [outcome_ofExcept, bind_eq_ok, Prod.exists, Except.ok.injEq, Prod.mk.injEq] at done
    obtain ⟨number, _, advanced, _, converted, rfl, rfl⟩ := done
    obtain ⟨rfl, reads⟩ := advance_reads (by simp [isNumber]) advanced
    have node := toOption_eq_some.mpr converted
    rcases accept_reads (by decide) accepted with ⟨rfl, minus, isMinus, start⟩ | ⟨rfl, _, rfl⟩
    · exact ⟨_, _, start.trans reads, fun mark isMark => .negative isMark isMinus isNumber, node⟩
    · exact ⟨_, _, reads, fun mark isMark => .plain isMark isNumber, node⟩
  · cases done

theorem globalValue_reads {name : Token} {type : DataType} {constant : Bool} {state after : State}
    {nodes : List Node}
    (done : outcome (Declaration.globalValue name type constant) state = .ok (nodes, after)) :
    ∃ tokens value, state.Reads tokens after ∧ Value tokens value ∧
      ∀ scope declared entry,
        scope.declareGlobal name.text type constant name.location = .ok (entry, declared) →
        Elaborates scope (.global constant type name value)
          ⟨.globalVar, some (.name name.text), some type, nodes⟩ declared := by
  simp only [Declaration.globalValue, outcome_bind, outcome_ite, outcome_raise, outcome_onlyIf,
    bind_eq_ok, Prod.exists] at done
  obtain ⟨initialized, _, accepted, done⟩ := done
  split at done
  · cases done
  rename_i hasValue
  rcases accept_reads (by decide) accepted with ⟨rfl, mark, isMark, start⟩ | ⟨rfl, _, rfl⟩
  · simp only [↓reduceIte, bind_eq_ok, Prod.exists, Except.ok.injEq, Prod.mk.injEq] at done
    obtain ⟨node, _, ran, rfl, rfl⟩ := done
    obtain ⟨tokens, literal, reads, value, converted⟩ := initializer_reads ran
    exact ⟨_, some literal, start.trans reads, value mark isMark,
      fun scope declared entry declares => .set declares converted⟩
  · simp only [Bool.false_eq_true, ↓reduceIte, Except.ok.injEq, Prod.mk.injEq] at done
    obtain ⟨rfl, rfl⟩ := done
    obtain rfl : constant = false := by simpa using hasValue
    exact ⟨[], none, .refl _, .none, fun scope declared entry declares => .unset declares⟩

theorem global_reads {state after : State} {node : Node}
    (done : outcome Declaration.global state = .ok (node, after)) :
    ∃ tokens item, state.Passes tokens after ∧ Derives Token.Declares tokens item ∧
      item.Elaborates state.scope node after.scope := by
  simp only [Declaration.global, outcome_bind, outcome_sees, ok_bind, outcome_ite,
    outcome_fail, bind_eq_ok, Prod.exists] at done
  obtain ⟨constant, _, accepted, type, _, declared, name, named, isName, done⟩ := done
  obtain ⟨read, names⟩ := Command.declares_of_reads declared
  obtain ⟨isIdentifier, reads⟩ := expectIdentifier_reads isName
  split at done
  · cases done
  simp only [outcome_declare, outcome_pure, bind_eq_ok, Prod.exists, Except.ok.injEq,
    Prod.mk.injEq] at done
  obtain ⟨_, _, ⟨entry, scope, entered, _, rfl⟩, nodes, _, valued, _, _, closed, rfl, rfl⟩ := done
  obtain ⟨tokens, value, goes, isValue, elaborates⟩ := globalValue_reads valued
  obtain ⟨semicolon, isEnd, close⟩ := expect_reads (by decide) closed
  have behind := goes.trans close
  rw [show _ = scope from behind.scope]
  rcases accept_reads (by decide) accepted with ⟨rfl, first, isConst, start⟩ | ⟨rfl, _, rfl⟩
  · have before := start.trans (read.trans reads)
    rw [before.scope] at entered
    refine ⟨_, .global true type name value, ?_, .constant isConst names isIdentifier isValue isEnd,
      elaborates _ _ _ entered⟩
    exact (before.declaring scope).trans behind.toPasses
  · have before := read.trans reads
    rw [before.scope] at entered
    refine ⟨_, .global false type name value, ?_, .global names isIdentifier isValue isEnd,
      elaborates _ _ _ entered⟩
    exact (before.declaring scope).trans behind.toPasses

theorem parameterList_reads {bound : Nat} {state after : State}
    {given : List (String × DataType)}
    (done : outcome (Declaration.parameterList bound) state = .ok (given, after)) :
    ∃ tokens parameters, state.Passes tokens after ∧
      Listed Token.Declares tokens parameters ∧ Declares state.scope parameters after.scope ∧
      given = parameters.map fun parameter => (parameter.1.text, parameter.2) := by
  induction bound generalizing state given with
  | zero => simp [Declaration.parameterList] at done
  | succ bound ih =>
      simp only [Declaration.parameterList, outcome_bind, outcome_declare, bind_eq_ok,
        Prod.exists, Except.ok.injEq, Prod.mk.injEq] at done
      obtain ⟨type, _, declared, name, _, isName, _, _, ⟨entry, scope, entered, _, rfl⟩, more, _,
        accepted, done⟩ := done
      obtain ⟨read, names⟩ := Command.declares_of_reads declared
      obtain ⟨isIdentifier, reads⟩ := expectIdentifier_reads isName
      have before := read.trans reads
      rw [before.scope] at entered
      rcases accept_reads (by decide) accepted with ⟨rfl, comma, isComma, go⟩ | ⟨rfl, _, rfl⟩
      · simp only [↓reduceIte, outcome_bind, outcome_pure, bind_eq_ok, Prod.exists,
          Except.ok.injEq, Prod.mk.injEq] at done
        obtain ⟨others, _, rest, rfl, rfl⟩ := done
        obtain ⟨tokens, parameters, passes, listed, declares, rfl⟩ := ih rest
        rw [show _ = scope from go.scope] at declares
        exact ⟨_, (name, type) :: parameters,
          (before.declaring scope).trans (go.toPasses.trans passes),
          .further names isIdentifier isComma listed, .cons entered declares, rfl⟩
      · simp only [Bool.false_eq_true, ↓reduceIte, outcome_pure, Except.ok.injEq,
          Prod.mk.injEq] at done
        obtain ⟨rfl, rfl⟩ := done
        exact ⟨_, [(name, type)], before.declaring scope, .last names isIdentifier,
          .cons entered .nil, rfl⟩

theorem parameters_read {state after : State} {given : List (String × DataType)}
    (done : outcome Declaration.parameters state = .ok (given, after)) :
    ∃ tokens parameters, state.Passes tokens after ∧
      Parameters Token.Declares tokens parameters ∧ Declares state.scope parameters after.scope ∧
      given = parameters.map fun parameter => (parameter.1.text, parameter.2) := by
  simp only [Declaration.parameters, outcome_bind, outcome_sees, outcome_seesAhead, ok_bind,
    outcome_ite, outcome_pure, outcome_unreadCount] at done
  split at done
  · cases done
    exact ⟨[], [], (State.Reads.refl _).toPasses, .none, .nil, rfl⟩
  split at done
  -- A `void` alone stands for no parameters, and is read without declaring anything.
  · rename_i isVoid
    simp only [Bool.and_eq_true, decide_eq_true_eq] at isVoid
    simp only [bind_eq_ok, Prod.exists, Except.ok.injEq, Prod.mk.injEq] at done
    obtain ⟨word, _, advanced, rfl, rfl⟩ := done
    obtain ⟨rfl, reads⟩ := advance_reads (by rw [isVoid.1]; decide) advanced
    exact ⟨_, [], reads.toPasses, .void isVoid.1, by rw [reads.scope]; exact .nil, rfl⟩
  · obtain ⟨tokens, parameters, passes, listed, declares, same⟩ := parameterList_reads done
    exact ⟨tokens, parameters, passes, .listed listed, declares, same⟩

theorem returnType_reads {state after : State} {returnType : Option DataType}
    (done : outcome Declaration.returnType state = .ok (returnType, after)) :
    ∃ word, state.Reads [word] after ∧ Returns Token.Declares word returnType := by
  simp only [Declaration.returnType, outcome_bind, outcome_ite, outcome_pure, bind_eq_ok,
    Prod.exists] at done
  obtain ⟨isVoid, _, accepted, done⟩ := done
  rcases accept_reads (by decide) accepted with ⟨rfl, word, isWord, reads⟩ | ⟨rfl, _, rfl⟩
  · simp only [↓reduceIte, Except.ok.injEq, Prod.mk.injEq] at done
    obtain ⟨rfl, rfl⟩ := done
    exact ⟨word, reads, .void isWord⟩
  · simp only [Bool.false_eq_true, ↓reduceIte, bind_eq_ok, Prod.exists, Except.ok.injEq,
      Prod.mk.injEq] at done
    obtain ⟨type, _, declared, rfl, rfl⟩ := done
    obtain ⟨read, names⟩ := Command.declares_of_reads declared
    exact ⟨_, read, .type names⟩

theorem functionBody_reads {function : Enclosing} {state after : State} {nodes : List Node}
    (outside : state.function = none)
    (done : outcome (Declaration.functionBody function) state = .ok (nodes, after)) :
    ∃ left tokens right body, state.Passes (left :: tokens ++ [right]) after ∧
      left.toLexeme = .punctuation "\x7b" ∧
      Command.Derives Token.Declares .sequence tokens body ∧
      right.toLexeme = .punctuation "\x7d" ∧
      Command.Elaborates function state.loopDepth state.scope body nodes after.scope := by
  simp only [Declaration.functionBody, outcome_bind, outcome_setEnclosing, ok_bind, outcome_pure,
    bind_eq_ok, Prod.exists, Except.ok.injEq, Prod.mk.injEq] at done
  obtain ⟨_, _, opened, nodes, _, ran, rfl, rfl⟩ := done
  obtain ⟨left, isLeft, start⟩ := expect_reads (by decide) opened
  obtain ⟨tokens, right, body, passes, isRight, derives, elaborates⟩ :=
    Command.braced_reads Command.statement_spells start.function ran
  rw [start.loopDepth, start.scope] at elaborates
  exact ⟨left, tokens, right, body, (start.toPasses.trans passes).inFunction outside, isLeft,
    derives, isRight, elaborates⟩

theorem function_reads {state after : State} {node : Node} (outside : state.function = none)
    (noLoop : state.loopDepth = 0)
    (done : outcome Declaration.function state = .ok (node, after)) :
    ∃ tokens item, state.Passes tokens after ∧ Derives Token.Declares tokens item ∧
      item.Elaborates state.scope node after.scope := by
  simp only [Declaration.function, Declaration.enterFunction, Declaration.exitFunction,
    Declaration.declareFunction, outcome_bind, outcome_scope, outcome_setScope, outcome_ofExcept,
    ok_bind, bind_assoc, outcome_pure, bind_eq_ok, Prod.exists, Except.ok.injEq,
    Prod.mk.injEq] at done
  obtain ⟨returnType, _, returned, name, _, isName, _, entered, opened, given, _, listed, _, _,
    closed, declared, declares, nodes, _, ran, rfl, rfl⟩ := done
  obtain ⟨word, read, returns⟩ := returnType_reads returned
  obtain ⟨isIdentifier, reads⟩ := expectIdentifier_reads isName
  obtain ⟨opening, isOpening, start⟩ := expect_reads (by decide) opened
  obtain ⟨tokens, parameters, passes, isList, parametersDeclare, rfl⟩ := parameters_read listed
  obtain ⟨closing, isClosing, close⟩ := expect_reads (by decide) closed
  have header := read.trans (reads.trans start)
  have given := (header.declaring entered.scope.enterFunction).trans (passes.trans close.toPasses)
  rw [header.scope] at parametersDeclare
  rw [close.scope, List.map_map] at declares
  -- The function is declared behind its parameters and before its body.
  have before := given.declaring declared
  obtain ⟨left, inner, right, body, goes, isLeft, derives, isRight, elaborates⟩ :=
    functionBody_reads (before.function.trans outside) ran
  rw [before.loopDepth, noLoop] at elaborates
  refine ⟨_, .function returnType name parameters body, ?_,
    .function returns isIdentifier isOpening isList isClosing isLeft derives isRight, ?_⟩
  · simpa using (before.trans goes).declaring _
  · rw [List.map_map]
    exact .function parametersDeclare declares elaborates

theorem declaration_reads {state after : State} {node : Node} (outside : state.function = none)
    (noLoop : state.loopDepth = 0)
    (done : outcome Declaration.declaration state = .ok (node, after)) :
    ∃ tokens item, state.Passes tokens after ∧ Derives Token.Declares tokens item ∧
      item.Elaborates state.scope node after.scope := by
  simp only [Declaration.declaration, outcome_bind, outcome_peek, outcome_seesAhead, ok_bind,
    outcome_ite, outcome_fail] at done
  split at done
  · cases done
  split at done
  · exact global_reads done
  split at done
  · exact function_reads outside noLoop done
  · exact global_reads done

end Item

namespace Program

theorem declarations_read {bound : Nat} {state after : State} {nodes : List Node}
    (outside : state.function = none) (noLoop : state.loopDepth = 0)
    (enough : state.unread.length ≤ bound)
    (done : outcome (declarations bound) state = .ok (nodes, after)) :
    ∃ items final, Derives Token.Declares state.unread items ∧
      Elaborates state.scope items nodes final := by
  induction bound generalizing state nodes with
  | zero =>
      cases done
      rw [List.length_eq_zero_iff.mp (Nat.le_zero.mp enough)]
      exact ⟨[], _, .nil, .nil⟩
  | succ bound ih =>
      simp only [declarations, outcome_bind, outcome_unreadCount, ok_bind, outcome_ite,
        outcome_pure] at done
      split at done
      · rename_i empty
        cases done
        rw [List.length_eq_zero_iff.mp empty]
        exact ⟨[], _, .nil, .nil⟩
      simp only [bind_eq_ok, Prod.exists, Except.ok.injEq, Prod.mk.injEq] at done
      obtain ⟨node, middle, first, others, _, rest, rfl, rfl⟩ := done
      obtain ⟨tokens, item, passes, derives, elaborates⟩ :=
        Item.declaration_reads outside noLoop first
      -- An item takes a token at least, so the bound covers those behind it.
      have progress : 0 < tokens.length := List.length_pos_iff.mpr derives.ne_nil
      have shorter : middle.unread.length ≤ bound := by
        have length := congrArg List.length passes.unread
        rw [List.length_append] at length
        omega
      obtain ⟨items, final, derived, elaborated⟩ :=
        ih (passes.function.trans outside) (passes.loopDepth.trans noLoop) shorter rest
      rw [passes.unread]
      exact ⟨item :: items, final, .cons derives derived, .cons elaborates elaborated⟩

end Program

def Closed (tokens : List Token) (finish : Token) : Prop :=
  finish.kind = .endOfInput ∧ ∀ token ∈ tokens, token.kind ≠ .endOfInput

theorem State.ofTokens_eq_ok {tokens : List Token} {state : State}
    (start : State.ofTokens tokens = .ok state) :
    tokens = state.unread ++ [state.finish] ∧ Closed state.unread state.finish ∧
      state.scope = Scope.empty ∧ state.function = none ∧ state.loopDepth = 0 := by
  unfold State.ofTokens at start
  split at start
  · cases start
  rename_i inner
  split at start
  · cases start
  rename_i finish last
  split at start
  · rename_i closes
    cases start
    refine ⟨(List.dropLast_append_getLast? finish last).symm, ⟨closes, ?_⟩, rfl, rfl, rfl⟩
    intro token member
    simpa using List.find?_eq_none.mp inner token (by simpa using member)
  · cases start

/-- An accepted token stream is a program and its end of input. -/
theorem parse_reads {tokens : List Token} {module : Node} (parsed : parse tokens = .ok module) :
    ∃ read finish items nodes final, tokens = read ++ [finish] ∧ Closed read finish ∧
      Program.Derives Token.Declares read items ∧
      Program.Elaborates Scope.empty items nodes final ∧
      module = ⟨.module, none, none, nodes⟩ := by
  simp only [parse_eq_outcome, bind_eq_ok] at parsed
  obtain ⟨start, started, ⟨module, after⟩, done, ⟨⟩⟩ := parsed
  obtain ⟨same, closed, scope, outside, noLoop⟩ := State.ofTokens_eq_ok started
  simp only [Program.module, outcome_bind, outcome_unreadCount, ok_bind, outcome_pure, bind_eq_ok,
    Prod.exists, Except.ok.injEq, Prod.mk.injEq] at done
  obtain ⟨nodes, _, ran, rfl, rfl⟩ := done
  obtain ⟨items, final, derives, elaborates⟩ :=
    Program.declarations_read outside noLoop (Nat.le_refl _) ran
  rw [scope] at elaborates
  exact ⟨_, _, items, nodes, final, same, closed, derives, elaborates, rfl⟩

section Sample

def Program.sample : String :=
  "const int limit = 3; int f(int x) \x7b int y = limit; while (x < y) x += 1; return f(x); \x7d"

def Program.sampleTree : Node :=
  let named (tag : Tag) (name : String) (children : List Node) : Node :=
    ⟨tag, some (.name name), some .i32, children⟩
  let x := named .localGet "x" []
  ⟨.module, none, none,
    [named .globalVar "limit" [⟨.number, some (.int 3), some .i32, []⟩],
      named .function "f" [⟨.parameters, none, none, [named .parameter "x" []]⟩,
        ⟨.body, none, none,
          [named .localVar "y" [named .globalGet "limit" []],
            ⟨.whileLoop, none, none, [⟨.lt, none, some .i32, [x, named .localGet "y" []]⟩,
              ⟨.block, none, none, [named .localSet "x" [⟨.add, none, some .i32,
                [x, ⟨.number, some (.int 1), some .i32, []⟩]⟩]]⟩]⟩,
            named .returned "f" [named .call "f" [x]]]⟩]]⟩

theorem Program.sample_accepted :
    ∃ tokens, tokenize sample = .ok tokens ∧ parse tokens = .ok sampleTree := by
  have accepted : ((tokenize sample).toOption.bind fun tokens => (parse tokens).toOption) =
      some sampleTree := by
    decide +kernel
  obtain ⟨tokens, read, parsed⟩ := Option.bind_eq_some_iff.mp accepted
  exact ⟨tokens, toOption_eq_some.mp read, toOption_eq_some.mp parsed⟩

end Sample

end ScalarC
