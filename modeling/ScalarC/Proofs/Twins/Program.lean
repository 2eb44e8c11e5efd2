import ScalarC.Parsing.Program
import ScalarC.Proofs.Twins.Statement

/-!
Whole programs on twin streams. `parse_agree` is the one run of two streams that
everything said about pairs of parses comes from.
-/

namespace ScalarC

open Parse

namespace Twins

variable {twins : Twins}

/-! Global variables. -/

theorem initializer_alike (type : DataType) :
    twins.Alike twins.Nodes (Declaration.initializer type) (Declaration.initializer type) := by
  apply (accept_alike (by simp)).bind
  rintro negative _ rfl
  apply peek_alike.bind
  intro token other pair
  apply Alike.ite
  · rw [kind_eq pair]
  · intro number
    apply advance_alike.bind
    intro _ _ _
    have text : other.text = token.text := text_of_other pair (by simp [number])
    have same : twins.Literals ⟨token.text, negative, token.location⟩
        ⟨other.text, negative, other.location⟩ := ⟨text, rfl, places pair⟩
    exact .ofExcept (same.node type)
  · intro _
    exact fail_alike (congrArg GrammarFault.missingLiteral (twins.lexeme pair))

theorem globalValue_alike {name other : Token} (names : twins.Identifiers name other)
    (type : DataType) (constant : Bool) :
    twins.Alike twins.NodeLists (Declaration.globalValue name type constant)
      (Declaration.globalValue other type constant) := by
  apply (accept_alike (by simp)).bind
  rintro initialized _ rfl
  apply Alike.ite .rfl
  · intro _
    rw [names.text]
    exact .raise (.malformed (.constWithoutValue name.text) (places names.pair))
  · intro _
    exact onlyIf_alike initialized (initializer_alike type)

theorem global_alike : twins.Alike twins.Nodes Declaration.global Declaration.global := by
  apply (accept_alike (by simp)).bind
  rintro constant _ rfl
  apply declaredType_alike.bind
  rintro type _ rfl
  apply expectIdentifier_alike.bind
  intro name other names
  apply (sees_alike (by simp)).bind
  rintro isFunction _ rfl
  apply Alike.ite .rfl
  · intro _
    exact fail_alike (congrArg GrammarFault.constFunction names.text)
  intro _
  apply (declare_alike fun scope => declareGlobal_agree names scope type constant).bind
  rintro _ _ rfl
  apply (globalValue_alike names type constant).bind
  rintro value _ rfl
  apply (expectPunctuation_alike _ _).bind
  rintro _ _ rfl
  rw [names.text]
  exact .pure (nodes_mk .globalVar (some (.name name.text)) (some type) value)

/-! Functions. -/

def Parameters (twins : Twins) (given others : List (String × DataType)) : Prop :=
  others = given.map (Prod.map twins.rename id)

theorem parameterList_alike (bound : Nat) :
    twins.Alike twins.Parameters (Declaration.parameterList bound)
      (Declaration.parameterList bound) := by
  induction bound with
  | zero =>
      apply peek_alike.bind
      intro token other pair
      exact fail_alike (congrArg GrammarFault.missingType (twins.lexeme pair))
  | succ bound ih =>
      apply declaredType_alike.bind
      rintro type _ rfl
      apply expectIdentifier_alike.bind
      intro name other names
      apply (declare_alike fun scope => declareInFunction_agree names scope type _).bind
      rintro _ _ rfl
      apply (accept_alike (by simp)).bind
      rintro more _ rfl
      rw [names.text]
      apply Alike.ite .rfl
      · intro _
        apply ih.bind
        rintro others _ rfl
        exact .pure rfl
      · intro _
        exact .pure rfl

theorem parameters_alike :
    twins.Alike twins.Parameters Declaration.parameters Declaration.parameters := by
  apply (sees_alike (by simp)).bind
  rintro closed _ rfl
  apply (sees_alike (by simp)).bind
  rintro isVoid _ rfl
  apply (seesAhead_alike (by simp) 1).bind
  rintro closesNext _ rfl
  apply Alike.ite .rfl
  · intro _
    exact .pure rfl
  intro _
  apply Alike.ite .rfl
  · intro _
    exact advance_alike.bind fun _ _ _ => .pure rfl
  · intro _
    apply unreadCount_alike.bind
    rintro bound _ rfl
    exact parameterList_alike bound

theorem Parameters.types {given others : List (String × DataType)}
    (same : twins.Parameters given others) : others.map Prod.snd = given.map Prod.snd := by
  rw [same, List.map_map]
  rfl

theorem Parameters.nodes {given others : List (String × DataType)}
    (same : twins.Parameters given others) :
    twins.NodeLists (given.map Declaration.parameterNode)
      (others.map Declaration.parameterNode) := by
  rw [NodeLists, same, List.map_map, List.map_map]
  apply List.map_congr_left
  intro parameter _
  exact nodes_mk .parameter (some (.name parameter.1)) (some parameter.2) []

theorem returnType_alike :
    twins.Alike Eq Declaration.returnType Declaration.returnType := by
  apply (accept_alike (by simp)).bind
  rintro isVoid _ rfl
  apply Alike.ite .rfl
  · intro _
    exact .pure rfl
  · intro _
    apply declaredType_alike.bind
    rintro type _ rfl
    exact .pure rfl

theorem declareFunction_alike {name other : Token} (names : twins.Identifiers name other)
    (signature : Signature) :
    twins.Alike Eq (Declaration.declareFunction name signature)
      (Declaration.declareFunction other signature) := by
  apply scope_alike.bind
  rintro scope _ rfl
  apply (Alike.ofExcept (declareFunction_agree names scope signature)).bind
  rintro after _ rfl
  exact setScope_alike rfl

theorem enterFunction_alike :
    twins.Alike Eq Declaration.enterFunction Declaration.enterFunction := by
  apply scope_alike.bind
  rintro scope _ rfl
  exact setScope_alike scope.renamed_enterFunction

theorem exitFunction_alike :
    twins.Alike Eq Declaration.exitFunction Declaration.exitFunction := by
  apply scope_alike.bind
  rintro scope _ rfl
  exact setScope_alike scope.renamed_exitFunction

theorem functionBody_alike (enclosing : Enclosing) :
    twins.Alike twins.NodeLists (Declaration.functionBody enclosing)
      (Declaration.functionBody (enclosing.renamed twins.rename)) := by
  apply (setEnclosing_alike (some enclosing)).bind
  rintro _ _ rfl
  apply (expectPunctuation_alike _ _).bind
  rintro _ _ rfl
  apply (braced_alike statement_alike _).bind
  rintro statements _ rfl
  apply (setEnclosing_alike none).bind
  rintro _ _ rfl
  exact .pure rfl

theorem function_alike :
    twins.Alike twins.Nodes Declaration.function Declaration.function := by
  apply returnType_alike.bind
  rintro type _ rfl
  apply expectIdentifier_alike.bind
  intro name other names
  apply (expectPunctuation_alike _ _).bind
  rintro _ _ rfl
  apply enterFunction_alike.bind
  rintro _ _ rfl
  apply parameters_alike.bind
  intro given others same
  apply (expectPunctuation_alike _ _).bind
  rintro _ _ rfl
  -- Renaming parameters leaves the signature as it is.
  rw [same.types, names.text]
  apply (declareFunction_alike names ⟨type, given.map Prod.snd⟩).bind
  rintro _ _ rfl
  apply (functionBody_alike ⟨name.text, type⟩).bind
  rintro statements _ rfl
  apply exitFunction_alike.bind
  rintro _ _ rfl
  rw [same.nodes]
  apply Alike.pure
  simp [Nodes]

/-! Modules. -/

theorem declaration_alike :
    twins.Alike twins.Nodes Declaration.declaration Declaration.declaration := by
  apply peek_alike.bind
  intro token other pair
  apply (seesAhead_alike (by simp) 2).bind
  rintro isFunction _ rfl
  apply Alike.ite
  · rw [twins.lexeme pair, Lexeme.renamed_isStatementWord]
  · intro _
    exact fail_alike (congrArg GrammarFault.statementOutsideFunction (twins.lexeme pair))
  intro _
  apply Alike.ite (lexeme_eq_iff pair (by simp))
  · intro _
    exact global_alike
  intro _
  apply Alike.ite .rfl
  · intro _
    exact function_alike
  · intro _
    exact global_alike

theorem declarations_alike (bound : Nat) :
    twins.Alike twins.NodeLists (Program.declarations bound) (Program.declarations bound) := by
  induction bound with
  | zero => exact .pure rfl
  | succ bound ih =>
      apply unreadCount_alike.bind
      rintro left _ rfl
      apply Alike.ite .rfl
      · intro _
        exact .pure rfl
      · intro _
        apply declaration_alike.bind
        rintro first _ rfl
        apply ih.bind
        rintro others _ rfl
        exact .pure rfl

theorem module_alike : twins.Alike twins.Nodes Program.module Program.module := by
  apply unreadCount_alike.bind
  rintro bound _ rfl
  apply (declarations_alike bound).bind
  rintro children _ rfl
  exact .pure (nodes_mk .module none none children)

/-! Token streams. -/

section Streams

variable {first second : List Token} (streams : List.Forall₂ twins.pair first second)
include streams

theorem streams_find (kind : TokenKind) :
    Option.Rel twins.pair (first.find? fun token => token.kind = kind)
      (second.find? fun token => token.kind = kind) := by
  induction streams with
  | nil => exact .none
  | @cons token other _ _ pair _ ih =>
      have same := kind_eq pair
      by_cases found : token.kind = kind
      · simpa [found, same] using pair
      · simpa [found, same] using ih

theorem streams_read : List.Forall₂ twins.pair first.dropLast second.dropLast := by
  rw [List.dropLast_eq_take, List.dropLast_eq_take, streams.length_eq]
  exact List.forall₂_take _ streams

theorem streams_last : Option.Rel twins.pair first.getLast? second.getLast? := by
  rw [List.getLast?_eq_getElem?, List.getLast?_eq_getElem?, streams.length_eq]
  exact streams_get streams _

/-- Both streams are refused, or their runs start as twins. Only an empty stream has no token
to be refused at. -/
theorem ofTokens_agree (filled : first ≠ []) :
    twins.Agree twins.States (State.ofTokens first) (State.ofTokens second) := by
  have read := streams_read streams
  have strays := streams_find (List.forall₂_reverse_iff.mpr read) .endOfInput
  have last := streams_last streams
  unfold State.ofTokens
  generalize first.dropLast.reverse.find? (fun token => token.kind = .endOfInput) = stray? at *
  generalize second.dropLast.reverse.find? (fun token => token.kind = .endOfInput) = other? at *
  cases strays with
  | some pair => exact .error (.malformed .innerEndOfInput (places pair))
  | none =>
      generalize ends : first.getLast? = finish? at *
      generalize second.getLast? = also? at *
      cases last with
      | none => exact absurd (List.getLast?_eq_none_iff.mp ends) filled
      | @some finish also pair =>
          by_cases closes : finish.kind = .endOfInput
          · have alike : also.kind = .endOfInput := (kind_eq pair).trans closes
            simp only [dif_pos closes, dif_pos alike]
            exact .ok ⟨read, pair, rfl, rfl, rfl⟩
          · have alike : also.kind ≠ .endOfInput := by rwa [kind_eq pair]
            simp only [dif_neg closes, dif_neg alike]
            exact .error (.malformed .unterminatedStream (places pair))

end Streams

/-- Twin streams have the same tree up to names, or are refused for the same cause. -/
theorem parse_agree {first second : List Token} (streams : List.Forall₂ twins.pair first second)
    (filled : first ≠ []) : twins.Agree twins.Nodes (parse first) (parse second) := by
  rw [parse_eq_outcome, parse_eq_outcome]
  apply (ofTokens_agree streams filled).bind
  intro start other states
  apply (module_alike.agree states).bind
  intro found given after
  exact .ok after.1

end Twins

end ScalarC
