import ScalarC.Proofs.Item.Soundness
import ScalarC.Proofs.Phrase.Nodes
import ScalarC.Proofs.Typing.Rules

/-!
Elaboration keeps the typing rules: by induction over what phrases give, over
commands and over items, with the functions in scope among those of the module.
-/

namespace ScalarC

/-- The functions in scope are those that calls may name. -/
def Scope.Within (scope : Scope) (calls : String → Signature → Prop) : Prop :=
  ∀ name signature, scope.function? name = some signature → calls name signature

variable {calls : String → Signature → Prop}

theorem Scope.Within.mono {scope after : Scope} (within : scope.Within calls)
    (same : after.functions = scope.functions) : after.Within calls := by
  intro name signature found
  exact within name signature (by simpa [Scope.function?, same] using found)

theorem Literal.finite_suits {literal : Literal} {type : DataType} {double : Binary64}
    {value : NodeValue} (float : type.isFloat = true)
    (fits : literal.finite type double = .ok value) : value.Suits type := by
  cases finite : (if type = .f32 then double.isFinite32 else double.isFinite) with
  | false => simp [Literal.finite, finite] at fits
  | true =>
      simp only [Literal.finite, finite, ↓reduceIte, Except.ok.injEq] at fits
      cases fits
      exact ⟨float, finite⟩

theorem Literal.value_suits {literal : Literal} {type : DataType} {value : NodeValue}
    (valued : literal.value type = .ok value) : value.Suits type := by
  unfold Literal.value at valued
  split at valued
  · unfold fractionalValue at valued
    split at valued
    · cases valued
    rename_i fractional
    split at valued
    · cases valued
    · exact finite_suits (by simpa [DataType.isFloat] using fractional) valued
  · simp only [integerValue] at valued
    split at valued
    · cases valued
    rename_i magnitude _
    generalize (if literal.negative = true then -(magnitude : Int) else magnitude) = whole at valued
    split at valued
    · rename_i least greatest bounds
      split at valued <;> cases valued
      rename_i inRange
      exact ⟨least, greatest, bounds, inRange⟩
    · rename_i unbounded
      have float : type.isFloat = true := by cases type <;> first | rfl | cases unbounded
      exact finite_suits float valued

theorem Literal.node_isValue {literal : Literal} {type : DataType} {node : Node}
    (is : literal.node? type = some node) : node.IsValue calls := by
  obtain ⟨value, valued, rfl⟩ := Literal.node?_eq_some.mp is
  exact .number (Literal.value_suits valued)

theorem Variable.get_isValue (source : Variable) : source.get.IsValue calls := by
  apply Node.IsValue.reference
  cases source.storage.isLocal <;> simp

theorem Variable.set_isValue {target : Variable} {node : Node} (value : node.IsValue calls)
    (typed : node.type = some target.type) : (target.set node).IsValue calls := by
  refine .assignment ?_ value typed
  cases target.storage.isLocal <;> simp

namespace Phrase

theorem gives_isValue {scope : Scope} (within : scope.Within calls) {phrases : List Phrase}
    {nodes : List Node} (gives : Gives scope phrases nodes) :
    ∀ node ∈ nodes, node.IsValue calls := by
  induction gives with
  | nil => simp
  | cons _ _ first others =>
      exact List.forall_mem_cons.mpr ⟨first _ (List.mem_singleton_self _), others⟩
  | literal _ is => exact List.forall_mem_singleton.mpr (Literal.node_isValue is)
  | reference => exact List.forall_mem_singleton.mpr (Variable.get_isValue _)
  | call found _ types ih => exact List.forall_mem_singleton.mpr (.call (within _ _ found) ih types)
  | group _ ih | unchanged _ _ ih => exact ih
  | negation _ _ typed ih =>
      exact List.forall_mem_singleton.mpr (.negation (List.forall_mem_singleton.mp ih) typed)
  | complement _ truth ih =>
      exact List.forall_mem_singleton.mpr (.complement (List.forall_mem_singleton.mp ih) truth)
  | conversion _ _ typed differs ih =>
      exact List.forall_mem_singleton.mpr (.cast (List.forall_mem_singleton.mp ih) typed differs)
  | connective _ _ truth truths left right =>
      have first := List.forall_mem_singleton.mp left
      have second := List.forall_mem_singleton.mp right
      exact List.forall_mem_singleton.mpr (.connective first second truth truths)
  | comparison _ _ typed same left right =>
      have first := List.forall_mem_singleton.mp left
      have second := List.forall_mem_singleton.mp right
      exact List.forall_mem_singleton.mpr (.comparison first second typed same)
  | arithmetic _ _ typed same integral left right =>
      have first := List.forall_mem_singleton.mp left
      have second := List.forall_mem_singleton.mp right
      exact List.forall_mem_singleton.mpr (.arithmetic first second typed same integral)
  | assignment _ _ _ typed ih =>
      have value := List.forall_mem_singleton.mp ih
      exact List.forall_mem_singleton.mpr (Variable.set_isValue value typed)
  | @compound _ _ _ _ _ target _ _ _ typed integral ih =>
      have own : target.get.IsValue calls := Variable.get_isValue target
      have value := List.forall_mem_singleton.mp ih
      exact List.forall_mem_singleton.mpr
        (Variable.set_isValue (.arithmetic own value rfl typed integral) rfl)

theorem elaborate_isValue {scope : Scope} (within : scope.Within calls) {phrase : Phrase}
    {type : DataType} {node : Node} (elaborated : phrase.elaborate scope type = some node) :
    node.IsValue calls :=
  gives_isValue within (elaborate_gives elaborated) node (by simp)

theorem Yields.isValue {scope : Scope} {type : DataType} {phrase : Phrase} {node : Node}
    (yields : phrase.Yields scope type node) (within : scope.Within calls) : node.IsValue calls :=
  elaborate_isValue within yields.1

end Phrase

namespace Command

theorem asStatement_isStatement {function : Enclosing} {node : Node} (value : node.IsValue calls) :
    node.asStatement.IsStatement calls function := by
  unfold Node.asStatement
  split
  · rename_i sets
    exact .assignment sets value
  · exact .expression value

theorem tag_of_block {function : Enclosing} {depth : Nat} {scope after : Scope}
    {commands : List Command} {nodes : List Node}
    (elaborates : Elaborates function depth scope commands nodes after) :
    ∀ inner node, commands = [.block inner] → nodes = [node] → node.tag = .block := by
  -- The lists are those of one command, so the tail of a sequence is empty.
  induction elaborates with
  | cons _ _ first =>
      rintro inner node same is
      cases same
      cases is
      exact first inner _ rfl rfl
  | block =>
      rintro inner node _ is
      cases is
      rfl
  | _ => nofun

theorem body_tag {function : Enclosing} {depth : Nat} {scope after : Scope} {command : Command}
    {node : Node} (elaborates : Elaborates function depth scope [command] [node] after) :
    (command.body node).tag = .block := by
  cases command with
  | block inner => exact tag_of_block elaborates inner node rfl rfl
  | _ => rfl

theorem body_isStatement {function : Enclosing} {command : Command} {node : Node}
    (statement : node.IsStatement calls function) :
    (command.body node).IsStatement calls function := by
  cases command with
  | block inner => exact statement
  | _ => exact .block (by simpa using statement)

theorem elaborates_isStatement {function : Enclosing} {depth : Nat} {scope after : Scope}
    {commands : List Command} {nodes : List Node}
    (elaborates : Elaborates function depth scope commands nodes after)
    (within : scope.Within calls) : ∀ node ∈ nodes, node.IsStatement calls function := by
  induction elaborates with
  | nil => simp
  | cons head _ first others =>
      have others := others (within.mono head.module_same.2)
      exact List.forall_mem_cons.mpr ⟨first within _ (List.mem_singleton_self _), others⟩
  | declared => exact List.forall_mem_singleton.mpr .declaration
  | initialized yields =>
      exact List.forall_mem_singleton.mpr (.initialization (yields.isValue within) yields.2)
  | returned isVoid => exact List.forall_mem_singleton.mpr (.returned isVoid)
  | returnedValue typed yields =>
      exact List.forall_mem_singleton.mpr (.returnedValue typed (yields.isValue within) yields.2)
  | branch test chosen ih =>
      have statement := ih within _ (List.mem_singleton_self _)
      exact List.forall_mem_singleton.mpr
        (.branch (test.isValue within) test.2 (body_tag chosen) (body_isStatement statement))
  | branchElse test chosen alternative first second =>
      have statement := first within _ (List.mem_singleton_self _)
      have other := second (within.mono chosen.module_same.2) _ (List.mem_singleton_self _)
      exact List.forall_mem_singleton.mpr
        (.branchElse (test.isValue within) test.2 (body_tag chosen) (body_isStatement statement)
          (body_tag alternative) (body_isStatement other))
  | whileLoop test repeated ih =>
      have statement := ih within _ (List.mem_singleton_self _)
      exact List.forall_mem_singleton.mpr
        (.whileLoop (test.isValue within) test.2 (body_tag repeated) (body_isStatement statement))
  | doLoop repeated test ih =>
      have statement := ih within _ (List.mem_singleton_self _)
      have behind := within.mono repeated.module_same.2
      exact List.forall_mem_singleton.mpr
        (.doLoop (body_tag repeated) (body_isStatement statement) (test.isValue behind) test.2)
  | breakLoop => exact List.forall_mem_singleton.mpr .breakLoop
  | continueLoop => exact List.forall_mem_singleton.mpr .continueLoop
  | block _ ih => exact List.forall_mem_singleton.mpr (.block (ih within))
  | expression elaborated =>
      have value := Phrase.elaborate_isValue within elaborated
      exact List.forall_mem_singleton.mpr (asStatement_isStatement value)

end Command

namespace Item

/-- A function in scope is one of those before the item, or the item itself. -/
theorem elaborates_isItem {scope after : Scope} {item : Item} {node : Node}
    (elaborates : item.Elaborates scope node after) (within : scope.Within calls)
    (own : ∀ name signature, Node.Offers [node] name signature → calls name signature) :
    node.IsItem calls ∧ after.Within calls := by
  cases elaborates with
  | unset entered =>
      obtain ⟨_, _, rfl⟩ := Scope.declareGlobal_eq_ok.mp entered
      exact ⟨.global, within.mono rfl⟩
  | set entered is =>
      obtain ⟨_, _, rfl⟩ := Scope.declareGlobal_eq_ok.mp entered
      obtain ⟨value, valued, rfl⟩ := Literal.node?_eq_some.mp is
      exact ⟨.initialized (Literal.value_suits valued), within.mono rfl⟩
  | @function entered _ _ returnType name parameters _ nodes declares introduced body =>
      obtain ⟨_, rfl⟩ := Scope.declareFunction_eq_ok.mp introduced
      have given : parameters.map parameterNode =
          (parameters.map fun parameter => (parameter.1.text, parameter.2)).map
            Declaration.parameterNode := by
        rw [List.map_map]
        rfl
      rw [given] at own ⊢
      -- The body may call the function it belongs to.
      have itself : calls name.text ⟨returnType, parameters.map Prod.snd⟩ :=
        own _ _ ⟨_, _, by rw [List.map_map]; rfl, List.mem_singleton_self _⟩
      have inner : Scope.Within { entered with
          functions := (name.text, ⟨returnType, parameters.map Prod.snd⟩) :: entered.functions }
          calls := by
        intro other signature found
        simp only [Scope.function?, List.lookup_cons] at found
        split at found
        · rename_i same
          cases found
          exact beq_iff_eq.mp same ▸ itself
        · rw [declares.module_same.2] at found
          exact within other signature found
      have statements := Command.elaborates_isStatement body inner
      exact ⟨.function statements, inner.mono body.module_same.2⟩

end Item

theorem Program.elaborates_isItem {scope after : Scope} {items : List Item} {nodes : List Node}
    (elaborates : Program.Elaborates scope items nodes after) (within : scope.Within calls)
    (own : ∀ name signature, Node.Offers nodes name signature → calls name signature) :
    ∀ node ∈ nodes, node.IsItem calls := by
  induction elaborates with
  | nil => simp
  | cons item _ ih =>
      obtain ⟨typed, within⟩ := Item.elaborates_isItem item within
        fun name signature offered => own name signature (offered.mono (by simp))
      exact List.forall_mem_cons.mpr
        ⟨typed, ih within fun name signature offered => own name signature (offered.mono (by simp))⟩

/-- The tree of every accepted token stream is well typed. -/
theorem parse_wellTyped {tokens : List Token} {module : Node} (parsed : parse tokens = .ok module) :
    module.WellTyped := by
  obtain ⟨_, _, items, nodes, _, _, _, _, elaborates, rfl⟩ := parse_reads parsed
  have empty : Scope.empty.Within (Node.Offers nodes) := by
    simp [Scope.Within, Scope.empty, Scope.function?]
  exact .module (Program.elaborates_isItem elaborates empty fun _ _ => id)

theorem sample_wellTyped :
    ∃ tokens, parse tokens = .ok Program.sampleTree ∧ Program.sampleTree.WellTyped := by
  obtain ⟨tokens, _, parsed⟩ := Program.sample_accepted
  exact ⟨tokens, parsed, parse_wellTyped parsed⟩

end ScalarC
