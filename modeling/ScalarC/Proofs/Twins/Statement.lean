import ScalarC.Parsing.Statement
import ScalarC.Proofs.Twins.Expression

/-!
The parsers of statements are alike on twin streams. Statement words are not
renamed, so both runs go into statements of the same kind, and the word of a
jump that is refused is the same.
-/

namespace ScalarC

open Parse

namespace Twins

variable {twins : Twins}

theorem condition_alike (before after : String) :
    twins.Alike twins.Nodes (Statement.condition before after)
      (Statement.condition before after) := by
  apply (expectPunctuation_alike "(" before).bind
  rintro _ _ rfl
  apply (ofType_alike .i32 "condition").bind
  rintro test _ rfl
  apply (expectPunctuation_alike ")" after).bind
  rintro _ _ rfl
  exact .pure rfl

theorem localDeclaration_alike :
    twins.Alike twins.Nodes Statement.localDeclaration Statement.localDeclaration := by
  apply declaredType_alike.bind
  rintro type _ rfl
  apply expectIdentifier_alike.bind
  intro name other names
  apply (sees_alike (by simp)).bind
  rintro isFunction _ rfl
  apply Alike.ite .rfl
  · intro _
    exact fail_alike rfl
  intro _
  apply (accept_alike (by simp)).bind
  rintro initialized _ rfl
  apply (onlyIf_alike initialized (ofType_alike type "initializer")).bind
  rintro value _ rfl
  apply (expectPunctuation_alike _ _).bind
  rintro _ _ rfl
  apply (declare_alike fun scope => declareInFunction_agree names scope type _).bind
  rintro _ _ rfl
  rw [names.text]
  exact .pure (nodes_mk .localVar (some (.name name.text)) (some type) value)

theorem returnValue_alike (function : Enclosing) {place other : Location}
    (behind : twins.Places place other) :
    twins.Alike twins.NodeLists (Statement.returnValue function place)
      (Statement.returnValue (function.renamed twins.rename) other) := by
  apply peek_alike.bind
  intro next _ pair
  apply (sees_alike (by simp)).bind
  rintro ends _ rfl
  obtain ⟨name, returnType⟩ := function
  cases returnType with
  | none =>
      cases ends with
      | true => exact .pure rfl
      | false => exact .raise (.typeMismatch (.renamed (.returnValueFromVoid name)) (places pair))
  | some type =>
      cases ends with
      | true => exact .raise (.typeMismatch (.renamed (.missingReturnValue name type)) behind)
      | false =>
          apply (ofType_alike type "return value").bind
          rintro value _ rfl
          exact .pure rfl

theorem returns_alike {place other : Location} (behind : twins.Places place other) :
    twins.Alike twins.Nodes (Statement.returns place) (Statement.returns other) := by
  apply enclosing_alike.bind
  rintro function? _ rfl
  cases function? with
  | none => exact .raise (.malformed .returnOutsideFunction behind)
  | some function =>
      apply (returnValue_alike function behind).bind
      rintro value _ rfl
      apply (expectPunctuation_alike _ _).bind
      rintro _ _ rfl
      exact .pure (nodes_mk .returned (some (.name function.name)) function.returnType value)

/-- A jump repeats the word it is made of, which is no identifier. -/
theorem jump_alike (tag : Tag) {word other : Token} (pair : twins.pair word other)
    (keyword : word.kind = .keyword) :
    twins.Alike twins.Nodes (Statement.jump tag word) (Statement.jump tag other) := by
  have text : other.text = word.text := text_of_other pair (by simp [keyword])
  apply loopDepth_alike.bind
  rintro depth _ rfl
  rw [text]
  apply Alike.ite .rfl
  · intro _
    exact .raise (.malformed (.jumpOutsideLoop word.text) (places pair))
  · intro _
    apply (expectPunctuation_alike _ _).bind
    rintro _ _ rfl
    exact .pure (nodes_mk tag none none [])

theorem expression_alike :
    twins.Alike twins.Nodes Statement.expression Statement.expression := by
  apply operand_alike.bind
  intro found given both
  apply (Alike.ofExcept (freeze_agree both .literalDefault)).bind
  rintro node _ rfl
  apply (expectPunctuation_alike _ _).bind
  rintro _ _ rfl
  rw [Node.renamed_tag]
  apply Alike.ite .rfl
  · intro _
    exact .pure rfl
  · intro _
    exact .pure (nodes_mk .expression none none [node])

section Inner

variable {statement other : Parse Node} (inner : twins.Alike twins.Nodes statement other)
include inner

theorem sequence_alike (bound : Nat) :
    twins.Alike twins.NodeLists (Statement.sequence statement bound)
      (Statement.sequence other bound) := by
  induction bound with
  | zero => exact .pure rfl
  | succ bound ih =>
      apply peek_alike.bind
      intro token also pair
      apply unreadCount_alike.bind
      rintro left _ rfl
      apply Alike.ite
      · rw [lexeme_eq_iff pair (by simp)]
      · intro _
        exact .pure rfl
      · intro _
        apply inner.bind
        rintro first _ rfl
        apply ih.bind
        rintro others _ rfl
        exact .pure rfl

theorem braced_alike (context : String) :
    twins.Alike twins.NodeLists (Statement.braced statement context)
      (Statement.braced other context) := by
  apply unreadCount_alike.bind
  rintro bound _ rfl
  apply (sequence_alike inner bound).bind
  rintro statements _ rfl
  apply (expectPunctuation_alike _ _).bind
  rintro _ _ rfl
  exact .pure rfl

theorem block_alike :
    twins.Alike twins.Nodes (Statement.block statement) (Statement.block other) := by
  apply (braced_alike inner "after block").bind
  rintro statements _ rfl
  exact .pure (nodes_mk .block none none statements)

theorem body_alike :
    twins.Alike twins.Nodes (Statement.body statement) (Statement.body other) := by
  apply (accept_alike (by simp)).bind
  rintro opened _ rfl
  apply Alike.ite .rfl
  · intro _
    exact block_alike inner
  · intro _
    apply inner.bind
    rintro single _ rfl
    exact .pure (nodes_mk .block none none [single])

theorem branches_alike :
    twins.Alike twins.Nodes (Statement.branches statement) (Statement.branches other) := by
  apply (condition_alike _ _).bind
  rintro test _ rfl
  apply (body_alike inner).bind
  rintro chosen _ rfl
  apply (accept_alike (by simp)).bind
  rintro hasAlternative _ rfl
  apply (onlyIf_alike hasAlternative (body_alike inner)).bind
  rintro alternative _ rfl
  exact .pure (nodes_mk .branch none none (test :: chosen :: alternative))

theorem repeatsWhile_alike :
    twins.Alike twins.Nodes (Statement.repeatsWhile statement)
      (Statement.repeatsWhile other) := by
  apply (condition_alike _ _).bind
  rintro test _ rfl
  apply (inLoop_alike (body_alike inner)).bind
  rintro repeated _ rfl
  exact .pure (nodes_mk .whileLoop none none [test, repeated])

theorem repeatsDo_alike :
    twins.Alike twins.Nodes (Statement.repeatsDo statement) (Statement.repeatsDo other) := by
  apply (inLoop_alike (body_alike inner)).bind
  rintro repeated _ rfl
  apply (expect_alike (by simp) _).bind
  rintro _ _ rfl
  apply (condition_alike _ _).bind
  rintro test _ rfl
  apply (expectPunctuation_alike _ _).bind
  rintro _ _ rfl
  exact .pure (nodes_mk .doLoop none none [repeated, test])

theorem opened_agree (word : StatementWord) {first second : State}
    (states : twins.States first second) (keyword : first.next.kind = .keyword) :
    twins.Agree (twins.After twins.Nodes) (outcome (Statement.opened statement word) first)
      (outcome (Statement.opened other word) second) := by
  cases word with
  | alternative => exact (fail_alike rfl).agree states
  | repeatsFor => exact (fail_alike rfl).agree states
  | returns => exact (advance_alike.bind fun _ _ pair => returns_alike (places pair)).agree states
  | branches => exact (advance_alike.bind fun _ _ _ => branches_alike inner).agree states
  | repeatsWhile => exact (advance_alike.bind fun _ _ _ => repeatsWhile_alike inner).agree states
  | repeatsDo => exact (advance_alike.bind fun _ _ _ => repeatsDo_alike inner).agree states
  | breaks =>
      exact advance_onward (fun _ _ pair keyword => jump_alike .breakLoop pair keyword)
        states keyword
  | continues =>
      exact advance_onward (fun _ _ pair keyword => jump_alike .continueLoop pair keyword)
        states keyword

theorem keyword_agree (text : String) {first second : State}
    (states : twins.States first second) (keyword : first.next.kind = .keyword) :
    twins.Agree (twins.After twins.Nodes) (outcome (Statement.keyword statement text) first)
      (outcome (Statement.keyword other text) second) := by
  unfold Statement.keyword
  cases StatementWord.ofText? text with
  | some word => exact opened_agree inner word states keyword
  | none =>
      rw [outcome_ite, outcome_ite]
      apply Agree.ite .rfl
      · intro _
        exact (fail_alike rfl).agree states
      · intro _
        exact localDeclaration_alike.agree states

theorem plain_alike :
    twins.Alike twins.Nodes (Statement.plain statement) (Statement.plain other) := by
  apply (accept_alike (by simp)).bind
  rintro isBlock _ rfl
  apply Alike.ite .rfl
  · intro _
    exact block_alike inner
  intro _
  apply peek_alike.bind
  intro token also pair
  apply seesIdentifierAhead_alike.bind
  rintro named _ rfl
  apply Alike.ite
  · rw [kind_eq pair]
  · intro _
    exact localDeclaration_alike
  · intro _
    exact expression_alike

end Inner

theorem statementWithin_alike (bound : Nat) :
    twins.Alike twins.Nodes (Statement.statementWithin bound)
      (Statement.statementWithin bound) := by
  induction bound with
  | zero =>
      apply peek_alike.bind
      intro token other pair
      exact fail_alike (congrArg GrammarFault.missingExpression (twins.lexeme pair))
  | succ bound ih =>
      apply peek_onward
      intro first second states
      have pair := states.next
      rw [outcome_ite, outcome_ite]
      apply Agree.ite
      · rw [kind_eq pair]
      · intro keyword
        rw [text_of_other pair (by simp [keyword])]
        exact keyword_agree ih first.next.text states keyword
      · intro _
        exact (plain_alike ih).agree states

theorem statement_alike :
    twins.Alike twins.Nodes Statement.statement Statement.statement := by
  apply unreadCount_alike.bind
  rintro bound _ rfl
  exact statementWithin_alike bound

end Twins

end ScalarC
