import ScalarC.Parsing.Expression
import ScalarC.Proofs.Outcome
import ScalarC.Proofs.Phrase.Grammar

/-!
What the parsers of expressions accept is a phrase of the grammar: the tokens
they read derive it, and the operand they give is the phrase's own. Each parser
is taken with the parser of inner expressions as a parameter, as it is written,
and the knot is tied by induction on the bound.
-/

namespace ScalarC

open Parse

namespace Phrase

def Spells (symbol : Symbol) (parser : Parse Operand) : Prop :=
  ∀ state found after, outcome parser state = .ok (found, after) →
    ∃ tokens phrase, state.Reads tokens after ∧ Derives symbol tokens [phrase] ∧
      phrase.operand state.scope = .ok found

theorem next_eq_start {state : State} {symbol : Symbol} {tokens rest : List Token}
    {phrase : Phrase} (unread : state.unread = tokens ++ rest)
    (derives : Derives symbol tokens [phrase]) : state.next = phrase.start := by
  obtain ⟨others, begins⟩ := derives.start.1
  have headed : state.unread = phrase.start :: (others ++ rest) := by
    rw [unread, begins, List.cons_append]
  exact State.next_cons headed

theorem declared_eq_ok {word : String} {place : Location} {type : DataType} :
    DataType.declared word place = .ok type ↔ DataType.ofWord? word = some type := by
  simp only [DataType.declared]
  cases DataType.ofWord? word <;> simp

theorem declaredType_reads {state after : State} {type : DataType}
    (done : outcome declaredType state = .ok (type, after)) :
    state.Reads [state.next] after ∧ DataType.ofWord? state.next.text = some type ∧
      (state.next.kind = .keyword ∨ state.next.kind = .identifier) := by
  simp only [declaredType, outcome_bind, outcome_peek, ok_bind, outcome_seesIdentifierAhead,
    outcome_ite, outcome_fail] at done
  split at done
  · rename_i inPlace
    have kind : state.next.kind = .keyword ∨ state.next.kind = .identifier := by
      simp only [Lexeme.inTypePosition, Lexeme.isTypeWord, Bool.or_eq_true, Bool.and_eq_true,
        decide_eq_true_eq] at inPlace
      exact inPlace.imp And.left And.left
    simp only [outcome_ofExcept, bind_eq_ok, Prod.exists, declared_eq_ok, Except.ok.injEq,
      Prod.mk.injEq] at done
    obtain ⟨word, _, advanced, _, spelled, rfl, rfl⟩ := done
    have real : state.next.kind ≠ .endOfInput := by rcases kind with kind | kind <;> simp [kind]
    obtain ⟨rfl, reads⟩ := advance_reads real advanced
    exact ⟨reads, spelled, kind⟩
  · cases done

theorem behind_mark {parser : Parse Operand} (spells : Spells .unary parser)
    {change : Operand → Except ParseError Operand} {state after : State} {found : Operand}
    (real : state.next.kind ≠ .endOfInput)
    (done : (do
      let advanced ← outcome advance state
      let given ← outcome parser advanced.2
      outcome (Parse.ofExcept (change given.1)) given.2) = .ok (found, after)) :
    ∃ tokens phrase given, state.Reads (state.next :: tokens) after ∧
      Derives .unary tokens [phrase] ∧ phrase.operand state.scope = .ok given ∧
      change given = .ok found := by
  simp only [outcome_ofExcept, bind_eq_ok, Prod.exists, Except.ok.injEq, Prod.mk.injEq] at done
  obtain ⟨_, _, advanced, given, _, ran, _, changed, rfl, rfl⟩ := done
  obtain ⟨rfl, start⟩ := advance_reads real advanced
  obtain ⟨tokens, phrase, reads, derives, meaning⟩ := spells _ _ _ ran
  rw [start.scope] at meaning
  exact ⟨tokens, phrase, given, start.trans reads, derives, meaning, changed⟩

theorem cast_spells {parser : Parse Operand} (spells : Spells .unary parser)
    {state after : State} {found : Operand}
    (casts : (state.next.toLexeme = .punctuation "(" ∧
      state.unread[1]?.any (·.isTypeWord) = true) ∧
      state.unread[2]?.any (fun token => token.toLexeme = .punctuation ")") = true)
    (done : (do
      let advanced ← outcome advance state
      let target ← outcome declaredType advanced.2
      let closed ← outcome (expectPunctuation ")" "after cast type") target.2
      let given ← outcome parser closed.2
      outcome (Parse.ofExcept (given.1.cast target.1 state.next.location)) given.2) =
        .ok (found, after)) :
    ∃ tokens phrase, state.Reads tokens after ∧ Derives .unary tokens [phrase] ∧
      phrase.operand state.scope = .ok found := by
  obtain ⟨⟨isOpening, typed⟩, _⟩ := casts
  simp only [outcome_ofExcept, bind_eq_ok, Prod.exists, Except.ok.injEq, Prod.mk.injEq] at done
  obtain ⟨_, middle, advanced, target, _, declared, _, _, closed, given, _, ran, _, changed,
    rfl, rfl⟩ := done
  obtain ⟨word, rest, unread, isWord⟩ := State.unread_of_ahead typed
  obtain ⟨rfl, start⟩ := advance_reads (by rw [isOpening]; decide) advanced
  have next : middle.next = word := by
    have same : state.next :: middle.unread = state.next :: word :: rest :=
      start.unread.symm.trans unread
    exact State.next_cons (List.cons.inj same).2
  obtain ⟨wordRead, spelled, _⟩ := declaredType_reads declared
  rw [next] at wordRead spelled
  -- A type may be spelled by a name elsewhere, but here a type word was seen ahead.
  have isKeyword : word.kind = .keyword := by
    simp only [Lexeme.isTypeWord, Bool.and_eq_true, decide_eq_true_eq] at isWord
    exact isWord.1
  obtain ⟨closing, isClosing, close⟩ := expect_reads (by decide) closed
  obtain ⟨tokens, phrase, reads, derives, meaning⟩ := spells _ _ _ ran
  have begin := start.trans (wordRead.trans close)
  rw [begin.scope] at meaning
  exact ⟨_, .cast state.next target phrase, begin.trans reads,
    .cast isOpening ⟨isKeyword, spelled⟩ isClosing derives,
    by simp [Phrase.operand, meaning, changed]⟩

theorem ofLexeme?_eq_some {level : List BinaryOperator} {lexeme : Lexeme}
    {operator : BinaryOperator} (found : BinaryOperator.ofLexeme? level lexeme = some operator) :
    operator ∈ level ∧ lexeme = .operator operator.symbol :=
  ⟨List.mem_of_find?_eq_some found, by simpa using List.find?_some found⟩

theorem chain_spells {level : List BinaryOperator} {tighter : List (List BinaryOperator)}
    {parser : Parse Operand} (spells : Spells (.binary tighter) parser) {bound : Nat}
    {state after : State} {first : List Token} {left : Phrase} {given found : Operand}
    (derived : Derives (.binary (level :: tighter)) first [left])
    (meaning : left.operand state.scope = .ok given)
    (done : outcome (Expression.chain level parser bound given) state = .ok (found, after)) :
    ∃ tokens phrase, state.Reads tokens after ∧
      Derives (.binary (level :: tighter)) (first ++ tokens) [phrase] ∧
      phrase.operand state.scope = .ok found := by
  -- What the loop has read so far is the left side of the next operator.
  induction bound generalizing state first left given with
  | zero =>
      cases done
      exact ⟨[], left, .refl _, by simpa using derived, meaning⟩
  | succ bound ih =>
      simp only [Expression.chain, outcome_bind, outcome_peek, ok_bind] at done
      split at done
      · cases done
        exact ⟨[], left, .refl _, by simpa using derived, meaning⟩
      · rename_i operator isOperator
        obtain ⟨member, isMark⟩ := ofLexeme?_eq_some isOperator
        simp only [outcome_bind, outcome_ofExcept, bind_assoc, ok_bind, bind_eq_ok,
          Prod.exists] at done
        obtain ⟨_, _, advanced, right, _, ran, joined, combined, done⟩ := done
        obtain ⟨rfl, start⟩ := advance_reads (by simp [isMark]) advanced
        obtain ⟨second, phrase, reads, derives, meant⟩ := spells _ _ _ ran
        have begin := start.trans reads
        rw [start.scope] at meant
        have whole : (Phrase.binary operator state.next left phrase).operand state.scope =
            .ok joined := by
          simp [Phrase.operand, meaning, meant, combined]
        rw [← begin.scope] at whole
        obtain ⟨tokens, result, goes, derivesAll, means⟩ :=
          ih (.joined derived member isMark derives) whole done
        rw [begin.scope] at means
        exact ⟨_, result, begin.trans goes, by simpa using derivesAll, means⟩

theorem assignment?_eq_ok {state after : State} {form? : Option Assignment}
    (done : outcome Expression.assignment? state = .ok (form?, after)) :
    after = state ∧ ∀ form, form? = some form →
      state.next.kind = .identifier ∧ ∃ mark, state.unread[1]? = some mark ∧
        Assignment.ofLexeme? mark.toLexeme = some form := by
  simp only [Expression.assignment?, outcome_bind, outcome_peek, outcome_peekAhead, ok_bind,
    outcome_ite, outcome_pure] at done
  split at done
  · rename_i named
    cases done
    refine ⟨rfl, fun form found => ⟨named, ?_⟩⟩
    simpa [Option.bind_eq_some_iff] using found
  · cases done
    exact ⟨rfl, by simp⟩

section Inner

variable {operand : Parse Operand} (inner : Spells .expression operand)
include inner

theorem typed_spells {expected : DataType} {context : String} {state after : State} {node : Node}
    (done : outcome (Expression.typed operand expected context) state = .ok (node, after)) :
    ∃ tokens phrase, state.Reads tokens after ∧ Derives .expression tokens [phrase] ∧
      phrase.settled state.scope expected context = .ok node := by
  simp only [Expression.typed, outcome_bind, outcome_peek, outcome_ofExcept, outcome_pure,
    ok_bind, bind_assoc, bind_eq_ok, Except.ok.injEq, Prod.mk.injEq, Prod.exists] at done
  obtain ⟨found, _, ran, _, frozen, _, agreed, rfl, rfl⟩ := done
  obtain ⟨tokens, phrase, reads, derives, meaning⟩ := inner _ _ _ ran
  refine ⟨tokens, phrase, reads, derives, ?_⟩
  rw [next_eq_start reads.unread derives] at agreed
  simp [settled, Operand.settle, meaning, frozen, agreed]

theorem arguments_spell {name : String} {types : List DataType} {position : Nat}
    {state after : State} {nodes : List Node}
    (done : outcome (Expression.arguments operand name position types) state =
      .ok (nodes, after)) :
    ∃ tokens given, state.Reads tokens after ∧ Derives .arguments tokens given ∧
      Phrase.arguments state.scope name position given types = .ok nodes := by
  induction types generalizing position state nodes with
  | nil => simp [Expression.arguments] at done
  | cons type types ih =>
      simp only [Expression.arguments, outcome_bind, bind_eq_ok, Prod.exists] at done
      obtain ⟨node, middle, first, more, behind, accepted, done⟩ := done
      obtain ⟨tokens, phrase, reads, derives, settled⟩ := typed_spells inner first
      simp only [Phrase.settled, bind_eq_ok] at settled
      obtain ⟨found, meaning, settled⟩ := settled
      rcases accept_reads (by decide) accepted with ⟨rfl, comma, isComma, read⟩ | ⟨rfl, _, rfl⟩
      · simp only [↓reduceIte, outcome_bind, outcome_pure, bind_eq_ok, Prod.exists,
          Except.ok.injEq, Prod.mk.injEq] at done
        obtain ⟨others, _, rest, rfl, rfl⟩ := done
        obtain ⟨further, given, goes, derived, meant⟩ := ih rest
        refine ⟨tokens ++ comma :: further, phrase :: given, ?_,
          .further derives isComma derived, ?_⟩
        · exact reads.trans (read.trans goes)
        · rw [read.scope, reads.scope] at meant
          simp [Phrase.arguments, meaning, settled, meant]
      · simp only [Bool.false_eq_true, ↓reduceIte, outcome_pure, Except.ok.injEq,
          Prod.mk.injEq] at done
        obtain ⟨rfl, rfl⟩ := done
        refine ⟨tokens, [phrase], reads, .last derives, ?_⟩
        simp [Phrase.arguments, meaning, settled]

theorem call_spells {state after : State} {found : Operand}
    (named : state.next.kind = .identifier)
    (opened : state.unread[1]?.any (fun token => token.toLexeme = .punctuation "(") = true)
    (done : outcome (Expression.call operand) state = .ok (found, after)) :
    ∃ tokens phrase, state.Reads tokens after ∧ Derives .primary tokens [phrase] ∧
      phrase.operand state.scope = .ok found := by
  obtain ⟨opening, rest, unread, isOpening⟩ := State.unread_of_ahead opened
  have isOpening := of_decide_eq_true isOpening
  have start : state.Reads [state.next, opening] (state.behind rest) := State.reads_behind unread
  simp only [Expression.call, outcome_bind, outcome_advance unread, ok_bind,
    outcome_advance (state.behind_unread (opening :: rest)), outcome_scope, outcome_ofExcept,
    bind_assoc, outcome_peek, outcome_ite, outcome_raise, outcome_pure,
    State.behind_behind, State.behind_scope, bind_eq_ok, Prod.exists] at done
  obtain ⟨signature, declared, nodes, middle, given, done⟩ := done
  split at done
  · cases done
  rename_i enough
  simp only [bind_eq_ok, Prod.exists, Except.ok.injEq, Prod.mk.injEq] at done
  obtain ⟨_, _, closed, rfl, rfl⟩ := done
  obtain ⟨closing, isClosing, close⟩ := expect_reads (by decide) closed
  simp only [Expression.argumentList, outcome_bind, outcome_sees, ok_bind, outcome_ite] at given
  split at given
  -- The list of arguments is empty if the closing parenthesis comes at once.
  · cases given
    refine ⟨_, .call state.next [] closing, start.trans close,
      .emptyCall named isOpening isClosing, ?_⟩
    have none : signature.parameters = [] := by simpa using enough
    simp [Phrase.operand, Phrase.arguments, declared, none]
  · obtain ⟨tokens, phrases, reads, derives, meaning⟩ := arguments_spell inner given
    refine ⟨_, .call state.next phrases closing, start.trans (reads.trans close),
      .call named isOpening isClosing derives, ?_⟩
    rw [State.behind_scope] at meaning
    simp [Phrase.operand, declared, meaning, enough]

theorem primary_spells : Spells .primary (Expression.primary operand) := by
  intro state found after done
  simp only [Expression.primary, outcome_bind, outcome_peek, ok_bind] at done
  split at done
  · rename_i isNumber
    simp only [Expression.number, outcome_bind, outcome_pure, bind_eq_ok, Prod.exists,
      Except.ok.injEq, Prod.mk.injEq] at done
    obtain ⟨token, _, advanced, rfl, rfl⟩ := done
    obtain ⟨rfl, reads⟩ := advance_reads (by simp [isNumber]) advanced
    exact ⟨_, .number state.next, reads, .number isNumber, by simp [Phrase.operand]⟩
  · rename_i named
    simp only [outcome_bind, outcome_seesAhead, ok_bind, outcome_ite] at done
    split at done
    · rename_i opened
      exact call_spells inner named opened done
    · simp only [Expression.variableNamed, outcome_bind, outcome_scope, ok_bind,
        outcome_ofExcept, outcome_pure, bind_assoc, bind_eq_ok, Prod.exists, Except.ok.injEq,
        Prod.mk.injEq] at done
      obtain ⟨token, _, advanced, source, declared, rfl, rfl⟩ := done
      obtain ⟨rfl, reads⟩ := advance_reads (by simp [named]) advanced
      rw [reads.scope] at declared
      refine ⟨_, .reference state.next, reads, .reference named, ?_⟩
      simp [Phrase.operand, declared]
  · simp only [outcome_ite, outcome_fail] at done
    split at done
    · rename_i isOpening
      simp only [Expression.grouped, outcome_bind, outcome_pure, bind_eq_ok, Prod.exists,
        Except.ok.injEq, Prod.mk.injEq] at done
      obtain ⟨opening, _, advanced, _, _, ran, _, _, closed, rfl, rfl⟩ := done
      obtain ⟨rfl, start⟩ := advance_reads (by rw [isOpening]; decide) advanced
      obtain ⟨tokens, phrase, reads, derives, meaning⟩ := inner _ _ _ ran
      obtain ⟨closing, isClosing, close⟩ := expect_reads (by decide) closed
      rw [start.scope] at meaning
      exact ⟨_, .group state.next phrase, start.trans (reads.trans close),
        .group isOpening isClosing derives, by simp [Phrase.operand, meaning]⟩
    · cases done

theorem unary_spells (bound : Nat) : Spells .unary (Expression.unary operand bound) := by
  -- Out of bound the parser goes on with a primary, which is a phrase all the same.
  induction bound with
  | zero =>
      intro state found after done
      obtain ⟨tokens, phrase, reads, derives, meaning⟩ := primary_spells inner _ _ _ done
      exact ⟨tokens, phrase, reads, .plain derives, meaning⟩
  | succ bound ih =>
      intro state found after done
      simp only [Expression.unary, Expression.seesCast, outcome_bind, outcome_peek, ok_bind,
        outcome_sees, outcome_seesAhead, outcome_peekAhead, outcome_pure, outcome_ite] at done
      split at done
      · rename_i isMinus
        obtain ⟨tokens, phrase, given, reads, derives, meaning, negated⟩ :=
          behind_mark ih (by rw [isMinus]; decide) done
        exact ⟨_, .negate state.next phrase, reads, .negation isMinus derives,
          by simp [Phrase.operand, meaning, negated]⟩
      split at done
      · rename_i isMark
        obtain ⟨tokens, phrase, given, reads, derives, meaning, complemented⟩ :=
          behind_mark ih (by rw [isMark]; decide) done
        exact ⟨_, .complement state.next phrase, reads, .complement isMark derives,
          by simp [Phrase.operand, meaning, complemented]⟩
      split at done
      · rename_i casts
        simp only [Bool.and_eq_true, decide_eq_true_eq] at casts
        exact cast_spells ih casts done
      · obtain ⟨tokens, phrase, reads, derives, meaning⟩ := primary_spells inner _ _ _ done
        exact ⟨tokens, phrase, reads, .plain derives, meaning⟩

theorem levels_spell (levels : List (List BinaryOperator)) :
    Spells (.binary levels) (Expression.levels operand levels) := by
  induction levels with
  | nil =>
      intro state found after done
      simp only [Expression.levels, outcome_bind, outcome_unreadCount, ok_bind] at done
      obtain ⟨tokens, phrase, reads, derives, meaning⟩ := unary_spells inner _ _ _ _ done
      exact ⟨tokens, phrase, reads, .prefixed derives, meaning⟩
  | cons level tighter ih =>
      intro state found after done
      simp only [Expression.levels, outcome_bind, outcome_unreadCount, ok_bind, bind_eq_ok,
        Prod.exists] at done
      obtain ⟨left, middle, first, done⟩ := done
      obtain ⟨tokens, phrase, reads, derives, meaning⟩ := ih _ _ _ first
      rw [← reads.scope] at meaning
      obtain ⟨further, whole, goes, derived, meant⟩ :=
        chain_spells ih (.tighter derives) meaning done
      rw [reads.scope] at meant
      exact ⟨_, whole, reads.trans goes, derived, meant⟩

theorem storedValue_spells {form : Assignment} {target : Variable} {place : Location}
    {state after : State} {node : Node}
    (done : outcome (Expression.storedValue operand form target place) state = .ok (node, after)) :
    ∃ tokens phrase found, state.Reads tokens after ∧ Derives .expression tokens [phrase] ∧
      phrase.operand state.scope = .ok found ∧
      form.stored target place phrase.start.location found = .ok node := by
  cases form with
  | plain =>
      obtain ⟨tokens, phrase, reads, derives, settled⟩ := typed_spells inner done
      simp only [Phrase.settled, bind_eq_ok] at settled
      obtain ⟨found, meaning, stored⟩ := settled
      exact ⟨tokens, phrase, found, reads, derives, meaning, stored⟩
  | compound operator =>
      simp only [Expression.storedValue, Expression.compoundValue, outcome_bind, outcome_peek,
        outcome_ofExcept, outcome_pure, ok_bind, bind_assoc, bind_eq_ok, Except.ok.injEq,
        Prod.mk.injEq, Prod.exists] at done
      obtain ⟨found, _, ran, combined, joined, _, frozen, _, agreed, rfl, rfl⟩ := done
      obtain ⟨tokens, phrase, reads, derives, meaning⟩ := inner _ _ _ ran
      refine ⟨tokens, phrase, found, reads, derives, meaning, ?_⟩
      rw [next_eq_start reads.unread derives] at agreed
      simp [Assignment.stored, Operand.settle, joined, frozen, agreed]

theorem assignment_spells {form : Assignment} {mark : Token} {state after : State}
    {found : Operand} (named : state.next.kind = .identifier)
    (ahead : state.unread[1]? = some mark)
    (isMark : Assignment.ofLexeme? mark.toLexeme = some form)
    (done : outcome (Expression.assignment operand form) state = .ok (found, after)) :
    ∃ tokens phrase, state.Reads tokens after ∧ Derives .expression tokens [phrase] ∧
      phrase.operand state.scope = .ok found := by
  have seen : state.unread[1]?.any (fun token => decide (token = mark)) = true := by simp [ahead]
  obtain ⟨second, rest, unread, same⟩ := State.unread_of_ahead seen
  obtain rfl := of_decide_eq_true same
  have start : state.Reads [state.next, second] (state.behind rest) := State.reads_behind unread
  simp only [Expression.assignment, outcome_bind, outcome_advance unread, ok_bind,
    outcome_advance (state.behind_unread (second :: rest)), outcome_scope, outcome_ofExcept,
    bind_assoc, outcome_ite, outcome_raise, outcome_pure, State.behind_behind,
    State.behind_scope, bind_eq_ok] at done
  obtain ⟨target, declared, done⟩ := done
  split at done
  · cases done
  rename_i writable
  simp only [bind_eq_ok, Prod.exists, Except.ok.injEq, Prod.mk.injEq] at done
  obtain ⟨node, _, ran, rfl, rfl⟩ := done
  obtain ⟨tokens, phrase, found, reads, derives, meaning, stored⟩ := storedValue_spells inner ran
  rw [State.behind_scope] at meaning
  refine ⟨_, .assign state.next form second phrase, start.trans reads,
    .assignment named isMark derives, ?_⟩
  simp [Phrase.operand, declared, writable, meaning, stored]

end Inner

theorem operandWithin_spells (bound : Nat) :
    Spells .expression (Expression.operandWithin bound) := by
  -- The inner expressions of one bound are those of the bound before.
  induction bound with
  | zero =>
      intro state found after done
      simp [Expression.operandWithin] at done
  | succ bound ih =>
      intro state found after done
      simp only [Expression.operandWithin, outcome_bind, bind_eq_ok, Prod.exists] at done
      obtain ⟨form?, _, ahead, done⟩ := done
      obtain ⟨rfl, assigns⟩ := assignment?_eq_ok ahead
      split at done
      · rename_i form
        obtain ⟨named, mark, second, isMark⟩ := assigns form rfl
        exact assignment_spells ih named second isMark done
      · obtain ⟨tokens, phrase, reads, derives, meaning⟩ := levels_spell ih _ _ _ _ done
        exact ⟨tokens, phrase, reads, .operators derives, meaning⟩

theorem operand_spells : Spells .expression Expression.operand := by
  intro state found after done
  simp only [Expression.operand, outcome_bind, outcome_unreadCount, ok_bind] at done
  exact operandWithin_spells _ _ _ _ done

end Phrase

end ScalarC
