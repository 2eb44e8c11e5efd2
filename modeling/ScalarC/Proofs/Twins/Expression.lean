import ScalarC.Parsing.Expression
import ScalarC.Proofs.Twins.Operand
import ScalarC.Proofs.Twins.Scope

/-!
The parsers of expressions are alike on twin streams, level by level: what they
are given is alike, so what they make of it is.
-/

namespace ScalarC

open Parse

namespace Twins

variable {twins : Twins}

theorem declaredType_alike : twins.Alike Eq declaredType declaredType := by
  apply peek_alike.bind
  intro token other pair
  apply seesIdentifierAhead_alike.bind
  rintro beforeName _ rfl
  refine .ite ?_ (fun _ => ?_) fun _ => ?_
  · rw [twins.lexeme pair, Lexeme.renamed_inTypePosition]
  · refine advance_alike.bind fun word also pair => .ofExcept ?_
    unfold DataType.declared
    rw [ofWord?_text pair]
    cases DataType.ofWord? word.text with
    | some type => exact .ok rfl
    | none => exact .error (.unknownType pair)
  · exact fail_alike (congrArg GrammarFault.missingType (twins.lexeme pair))

/-! Parsers that rely on the kind of the next token agree in states where it is of that kind. -/

theorem variableNamed_agree {first second : State} (states : twins.States first second)
    (named : first.next.kind = .identifier) :
    twins.Agree (twins.After fun entry renamed => renamed = entry.renamed twins.rename)
      (outcome Expression.variableNamed first) (outcome Expression.variableNamed second) := by
  refine advance_onward (fun name also pair named => ?_) states named
  apply scope_alike.bind
  rintro scope _ rfl
  exact .ofExcept (lookup_agree ⟨pair, named⟩ scope)

theorem number_agree {first second : State} (states : twins.States first second)
    (isNumber : first.next.kind = .number) :
    twins.Agree (twins.After twins.Operands) (outcome Expression.number first)
      (outcome Expression.number second) := by
  refine advance_onward (fun token also pair isNumber => .pure ?_) states isNumber
  exact .pending (.literal ⟨text_of_other pair (by simp [isNumber]), rfl, places pair⟩)

theorem seesCast_alike : twins.Alike Eq Expression.seesCast Expression.seesCast := by
  apply (sees_alike (by simp)).bind
  rintro opened _ rfl
  apply (peekAhead_alike 1).bind
  intro word? other? pairs
  refine (seesAhead_alike (by simp) 2).bind fun closed _ same => .pure ?_
  subst same
  cases pairs with
  | none => rfl
  | some pair => simp [twins.lexeme pair]

section Inner

variable {operand other : Parse Operand} (inner : twins.Alike twins.Operands operand other)
include inner

theorem typed_alike {context also : String} (contexts : ContextRenames twins.rename context also)
    (expected : DataType) :
    twins.Alike twins.Nodes (Expression.typed operand expected context)
      (Expression.typed other expected also) := by
  apply peek_alike.bind
  intro start _ pair
  apply inner.bind
  intro found given both
  apply (Alike.ofExcept (freeze_agree both expected)).bind
  rintro node _ rfl
  rw [Node.renamed_type]
  apply (Alike.ofExcept (require_agree (places pair) contexts expected node.type)).bind
  rintro _ _ rfl
  exact .pure rfl

theorem arguments_alike (name : String) (position : Nat) (types : List DataType) :
    twins.Alike twins.NodeLists (Expression.arguments operand name position types)
      (Expression.arguments other (twins.rename name) position types) := by
  induction types generalizing position with
  | nil =>
      refine peek_alike.bind fun token _ pair => .raise ?_
      exact .typeMismatch (.renamed (.tooManyArguments name position)) (places pair)
  | cons type types ih =>
      apply (typed_alike inner (.argument position name) type).bind
      rintro node _ rfl
      apply (accept_alike (by simp)).bind
      rintro more _ rfl
      refine .ite .rfl (fun _ => ?_) fun _ => .pure rfl
      refine (ih (position + 1)).bind fun nodes _ same => .pure ?_
      subst same
      rfl

theorem argumentList_alike (name : String) (types : List DataType) :
    twins.Alike twins.NodeLists (Expression.argumentList operand name types)
      (Expression.argumentList other (twins.rename name) types) := by
  apply (sees_alike (by simp)).bind
  rintro closed _ rfl
  exact .ite .rfl (fun _ => .pure rfl) fun _ => arguments_alike inner name 0 types

theorem call_agree {first second : State} (states : twins.States first second)
    (named : first.next.kind = .identifier) :
    twins.Agree (twins.After twins.Operands) (outcome (Expression.call operand) first)
      (outcome (Expression.call other) second) := by
  refine advance_onward (fun name also pair named => ?_) states named
  have names : twins.Identifiers name also := ⟨pair, named⟩
  apply advance_alike.bind
  intro _ _ _
  apply scope_alike.bind
  rintro scope _ rfl
  apply (Alike.ofExcept (lookupFunction_agree names scope)).bind
  rintro signature _ rfl
  rw [names.text]
  apply (argumentList_alike inner name.text signature.parameters).bind
  rintro given _ rfl
  apply peek_alike.bind
  intro next _ pair
  rw [List.length_map]
  refine .ite .rfl (fun _ => .raise ?_) fun _ => ?_
  · exact .typeMismatch (.renamed (.tooFewArguments name.text signature.parameters.length
      given.length)) (places pair)
  · refine (expectPunctuation_alike _ _).bind fun _ _ _ => .pure (.of_nodes ?_)
    exact nodes_mk .call (some (.name name.text)) signature.returnType given

theorem grouped_alike :
    twins.Alike twins.Operands (Expression.grouped operand) (Expression.grouped other) := by
  apply advance_alike.bind
  intro _ _ _
  apply inner.bind
  intro found given both
  exact (expectPunctuation_alike _ _).bind fun _ _ _ => .pure both

theorem primary_alike :
    twins.Alike twins.Operands (Expression.primary operand) (Expression.primary other) := by
  refine peek_onward fun {first second} states => ?_
  have pair := states.next
  have marked : twins.Alike twins.Operands
      (if first.next.toLexeme = .punctuation "(" then Expression.grouped operand
        else Parse.fail (.missingExpression first.next.toLexeme))
      (if second.next.toLexeme = .punctuation "(" then Expression.grouped other
        else Parse.fail (.missingExpression second.next.toLexeme)) := by
    refine .ite (lexeme_eq_iff pair (by simp)) (fun _ => grouped_alike inner) fun _ => ?_
    exact fail_alike (congrArg GrammarFault.missingExpression (twins.lexeme pair))
  rw [kind_eq pair]
  -- The kind decides in both runs; only the mark of a grouping is told by its text.
  cases kind : first.next.kind with
  | number => exact number_agree states kind
  | identifier =>
      have called := states.sees_ahead 1 (show (Lexeme.punctuation "(").kind ≠ _ by simp)
      simp only [outcome_bind, outcome_seesAhead, ok_bind, called, outcome_ite]
      refine .ite .rfl (fun _ => call_agree inner states kind) fun _ => ?_
      refine (variableNamed_agree states kind).bind fun found given after => .ok ⟨?_, after.2⟩
      rw [after.1]
      exact .of_nodes (Variable.renamed_get _)
  | keyword | operator | punctuation | endOfInput => exact marked.agree states

theorem unary_alike (bound : Nat) :
    twins.Alike twins.Operands (Expression.unary operand bound)
      (Expression.unary other bound) := by
  induction bound with
  | zero => exact primary_alike inner
  | succ bound ih =>
      apply peek_alike.bind
      intro token _ pair
      apply seesCast_alike.bind
      rintro casts _ rfl
      refine .ite (lexeme_eq_iff pair (by simp)) (fun _ => ?minus) fun _ => ?_
      case minus =>
        apply advance_alike.bind
        intro _ _ _
        refine ih.bind fun found given both => .ofExcept ?_
        exact negate_agree (places pair) both
      refine .ite (lexeme_eq_iff pair (by simp)) (fun _ => ?not) fun _ => ?_
      case not =>
        apply advance_alike.bind
        intro _ _ _
        refine ih.bind fun found given both => .ofExcept ?_
        exact complement_agree (places pair) both
      refine .ite .rfl (fun _ => ?_) fun _ => primary_alike inner
      apply advance_alike.bind
      intro _ _ _
      apply declaredType_alike.bind
      rintro target _ rfl
      apply (expectPunctuation_alike _ _).bind
      intro _ _ _
      refine ih.bind fun found given both => .ofExcept ?_
      exact cast_agree (places pair) both target

theorem chain_alike (level : List BinaryOperator) (bound : Nat) {left given : Operand}
    (both : twins.Operands left given) :
    twins.Alike twins.Operands (Expression.chain level operand bound left)
      (Expression.chain level other bound given) := by
  induction bound generalizing left given with
  | zero => exact .pure both
  | succ bound ih =>
      apply peek_alike.bind
      intro token also pair
      rw [twins.lexeme pair, BinaryOperator.ofLexeme?_renamed]
      cases BinaryOperator.ofLexeme? level token.toLexeme with
      | none => exact .pure both
      | some operator =>
          apply advance_alike.bind
          intro _ _ _
          apply inner.bind
          intro right second further
          refine (Alike.ofExcept (binary_agree both further (places pair) operator)).bind ?_
          exact fun joined _ both => ih both

theorem levels_alike (levels : List (List BinaryOperator)) :
    twins.Alike twins.Operands (Expression.levels operand levels)
      (Expression.levels other levels) := by
  induction levels with
  | nil =>
      apply unreadCount_alike.bind
      rintro bound _ rfl
      exact unary_alike inner bound
  | cons level tighter ih =>
      apply ih.bind
      intro left given both
      apply unreadCount_alike.bind
      rintro bound _ rfl
      exact chain_alike ih level bound both

theorem compoundValue_alike (operator : Arithmetic) (target : Variable) {place also : Location}
    (behind : twins.Places place also) :
    twins.Alike twins.Nodes (Expression.compoundValue operand operator target place)
      (Expression.compoundValue other operator (target.renamed twins.rename) also) := by
  have own : twins.Operands (.typed target.get) (.typed (target.renamed twins.rename).get) :=
    .of_nodes (Variable.renamed_get target)
  apply peek_alike.bind
  intro start _ pair
  apply inner.bind
  intro right _ both
  apply (Alike.ofExcept (arithmetic_agree own both behind operator)).bind
  intro joined _ both
  apply (Alike.ofExcept (freeze_agree both target.type)).bind
  rintro value _ rfl
  rw [Variable.renamed_type, Node.renamed_type]
  apply (Alike.ofExcept (require_agree (places pair) (.same _) target.type value.type)).bind
  rintro _ _ rfl
  exact .pure rfl

theorem storedValue_alike (form : Assignment) (target : Variable) {place also : Location}
    (behind : twins.Places place also) :
    twins.Alike twins.Nodes (Expression.storedValue operand form target place)
      (Expression.storedValue other form (target.renamed twins.rename) also) := by
  cases form with
  | plain => exact typed_alike inner (.same _) target.type
  | compound operator => exact compoundValue_alike inner operator target behind

theorem assignment_agree (form : Assignment) {first second : State}
    (states : twins.States first second) (named : first.next.kind = .identifier) :
    twins.Agree (twins.After twins.Operands) (outcome (Expression.assignment operand form) first)
      (outcome (Expression.assignment other form) second) := by
  refine advance_onward (fun name also pair named => ?_) states named
  have names : twins.Identifiers name also := ⟨pair, named⟩
  apply advance_alike.bind
  intro mark _ pair
  apply scope_alike.bind
  rintro scope _ rfl
  apply (Alike.ofExcept (lookup_agree names scope)).bind
  rintro target _ rfl
  rw [Variable.renamed_storage]
  refine .ite .rfl (fun _ => .raise (.constAssignment names)) fun _ => ?_
  apply (storedValue_alike inner form target (places pair)).bind
  rintro value _ rfl
  exact .pure (.of_nodes (Variable.renamed_set ..))

end Inner

theorem assignment?_agree {first second : State} (states : twins.States first second) :
    ∃ form?, outcome Expression.assignment? first = .ok (form?, first) ∧
      outcome Expression.assignment? second = .ok (form?, second) ∧
      (form?.isSome → first.next.kind = .identifier) := by
  have mark : second.unread[1]?.bind (fun mark => Assignment.ofLexeme? mark.toLexeme) =
      first.unread[1]?.bind fun mark => Assignment.ofLexeme? mark.toLexeme := by
    have pairs := states.ahead 1
    generalize first.unread[1]? = token? at pairs
    generalize second.unread[1]? = other? at pairs
    cases pairs with
    | none => rfl
    | some pair => simp [twins.lexeme pair]
  simp only [Expression.assignment?, outcome_bind, outcome_peek, outcome_peekAhead, ok_bind,
    outcome_ite, outcome_pure, kind_eq states.next, mark]
  by_cases named : first.next.kind = .identifier
  · exact ⟨_, if_pos named, if_pos named, fun _ => named⟩
  · exact ⟨none, if_neg named, if_neg named, nofun⟩

theorem operandWithin_alike (bound : Nat) :
    twins.Alike twins.Operands (Expression.operandWithin bound)
      (Expression.operandWithin bound) := by
  induction bound with
  | zero =>
      apply peek_alike.bind
      intro token other pair
      exact fail_alike (congrArg GrammarFault.missingExpression (twins.lexeme pair))
  | succ bound ih =>
      constructor
      intro first second states
      obtain ⟨form?, here, there, named⟩ := assignment?_agree states
      rw [Expression.operandWithin, outcome_bind, outcome_bind, here, there, ok_bind, ok_bind]
      cases form? with
      | some form => exact assignment_agree ih form states (named rfl)
      | none => exact (levels_alike ih BinaryOperator.levels).agree states

theorem operand_alike :
    twins.Alike twins.Operands Expression.operand Expression.operand := by
  apply unreadCount_alike.bind
  rintro bound _ rfl
  exact operandWithin_alike bound

theorem ofType_alike (expected : DataType) (context : String) :
    twins.Alike twins.Nodes (Expression.ofType expected context)
      (Expression.ofType expected context) :=
  typed_alike operand_alike (.same context) expected

end Twins

end ScalarC
