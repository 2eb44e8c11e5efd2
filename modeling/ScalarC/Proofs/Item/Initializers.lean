import ScalarC.Parsing.Declaration
import ScalarC.Proofs.Phrase.Completeness

/-!
Constants: a number with a minus sign before it or without. The value of a global is
one, and is read by a parser of its own; elsewhere one is an expression, read through
all levels of operators, whose sign joins the number before its type is known. It is
the same node of the same type on both ways, or the same error.
-/

namespace ScalarC

open Parse

/-- The tokens of a constant and the literal they stand for. -/
inductive Constant : List Token → Literal → Prop where
  | plain {number : Token} :
      number.kind = .number → Constant [number] ⟨number.text, false, number.location⟩
  | negative {minus number : Token} :
      minus.toLexeme = .operator "-" → number.kind = .number →
      Constant [minus, number] ⟨number.text, true, number.location⟩

theorem Literal.settle_eq_node (literal : Literal) (type : DataType) (context : String)
    (place : Location) :
    (Operand.pending (.literal literal)).settle type context place = literal.node type := by
  simp only [Operand.settle, Operand.freeze, Pending.build, Literal.node]
  cases literal.value type with
  | ok value => simp [DataType.require]
  | error error => rfl

namespace Constant

variable {tokens rest : List Token} {literal : Literal} {state : State}

theorem initializer_performs (isConstant : Constant tokens literal)
    (unread : state.unread = tokens ++ rest) (type : DataType) :
    outcome (Declaration.initializer type) state =
      literal.node type >>= fun node => .ok (node, state.behind rest) := by
  cases isConstant with
  | @plain number isNumber =>
      have next : state.next = number := State.next_cons unread
      have positive : outcome (accept (.operator "-")) state = .ok (false, state) := by
        refine outcome_accept_other fun same => ?_
        rw [next] at same
        simp [same] at isNumber
      simp [Declaration.initializer, positive, next, isNumber, outcome_advance unread]
  | @negative minus number isMinus isNumber =>
      have negative := outcome_accept
        (show state.unread = minus :: number :: rest from unread) isMinus
      have read := outcome_advance (state.behind_unread (number :: rest))
      simp [Declaration.initializer, negative, isNumber, read]

/-- As an expression a constant is a single literal, which takes the sign as its own. -/
theorem isPhrase (isConstant : Constant tokens literal) :
    ∃ phrase, Phrase.Derives .expression tokens [phrase] ∧
      ∀ scope, phrase.operand scope = .ok (.pending (.literal literal)) := by
  cases isConstant with
  | plain isNumber => exact ⟨_, .of_primary (.number isNumber), fun _ => rfl⟩
  | negative isMinus isNumber =>
      have derives := Phrase.Derives.negation isMinus (.plain (.number isNumber))
      exact ⟨_, .of_unary derives, fun _ => rfl⟩

theorem typed_performs {phrase : Phrase} {parser : Parse Operand}
    (derives : Phrase.Derives .expression tokens [phrase])
    (found : ∀ scope, phrase.operand scope = .ok (.pending (.literal literal)))
    (unread : state.unread = tokens ++ rest)
    (parses : Phrase.Parses parser state phrase rest) (type : DataType) (context : String) :
    outcome (Expression.typed parser type context) state =
      literal.node type >>= fun node => .ok (node, state.behind rest) := by
  obtain ⟨⟨others, begins⟩, _⟩ := derives.start
  have start : state.next = phrase.start := State.next_cons (by rw [unread, begins]; rfl)
  rw [Phrase.typed_parses parses start, Phrase.settled, found, ok_bind, Literal.settle_eq_node]

end Constant

/-- Where nothing behind a constant continues it, such as a semicolon, the value of a global, an
expression of its type and, with the bound of the call around it, an argument are the same: the
node of its literal with the same tokens left, or the same error. -/
theorem constants_read_alike {tokens rest : List Token} {literal : Literal} {state : State}
    (isConstant : Constant tokens literal) (unread : state.unread = tokens ++ rest)
    (ends : Phrase.Ends rest) (type : DataType) (context : String) :
    outcome (Declaration.initializer type) state =
      (literal.node type >>= fun node => .ok (node, state.behind rest)) ∧
    outcome (Expression.ofType type context) state =
      outcome (Declaration.initializer type) state ∧
    ∀ bound, tokens.length ≤ bound →
      outcome (Expression.typed (Expression.operandWithin bound) type context) state =
        outcome (Declaration.initializer type) state := by
  have performs := isConstant.initializer_performs unread type
  obtain ⟨phrase, derives, found⟩ := isConstant.isPhrase
  rw [performs]
  refine ⟨rfl, ?_, fun bound enough => ?_⟩
  · have parses := Phrase.operand_parses derives unread ends
    exact Constant.typed_performs derives found unread parses type context
  · have parses := Phrase.runs_of_derives derives bound state rest enough unread ends
    exact Constant.typed_performs derives found unread parses type context

section Sample

private def sign : Token := ⟨.operator "-", ⟨1, 9⟩⟩

private def half : Token := ⟨⟨.number, "0x80000000"⟩, ⟨1, 10⟩⟩

private def stop : Token := ⟨.punctuation ";", ⟨1, 20⟩⟩

private def awaiting : State :=
  ⟨[sign, half, stop], ⟨.endOfInput, ⟨1, 21⟩⟩, Scope.empty, none, 0, rfl⟩

private def leastNode : Node := ⟨.number, some (.int (-2147483648)), some .i32, []⟩

theorem constants_read_alike_least :
    Constant [sign, half] ⟨"0x80000000", true, ⟨1, 10⟩⟩ ∧
    awaiting.unread = [sign, half] ++ [stop] ∧ Phrase.Ends [stop] ∧
    outcome (Declaration.initializer .i32) awaiting = .ok (leastNode, awaiting.behind [stop]) ∧
    outcome (Expression.ofType .i32 "initializer") awaiting =
      .ok (leastNode, awaiting.behind [stop]) ∧
    outcome (Expression.typed (Expression.operandWithin 2) .i32 "argument 1 of 'f'") awaiting =
      .ok (leastNode, awaiting.behind [stop]) := by
  have isConstant : Constant [sign, half] ⟨"0x80000000", true, ⟨1, 10⟩⟩ := .negative rfl rfl
  have ends : Phrase.Ends [stop] := Phrase.ends_punctuation rfl (by decide)
  have node : Literal.node ⟨"0x80000000", true, ⟨1, 10⟩⟩ .i32 = .ok leastNode := rfl
  have unread : awaiting.unread = [sign, half] ++ [stop] := rfl
  have inside := constants_read_alike isConstant unread ends .i32 "initializer"
  have given := constants_read_alike isConstant unread ends .i32 "argument 1 of 'f'"
  have performs : outcome (Declaration.initializer .i32) awaiting =
      .ok (leastNode, awaiting.behind [stop]) := by
    rw [inside.1, node, ok_bind]
  exact ⟨isConstant, unread, ends, performs, inside.2.1.trans performs,
    (given.2.2 2 (Nat.le_refl 2)).trans performs⟩

end Sample

end ScalarC
