import Mathlib.Data.List.Nodup
import ScalarC.Proofs.Resolution.Tracking

/-!
Names in an accepted module are resolved. The items of a module have distinct
names, and each is elaborated in a scope that records those before it.
-/

namespace ScalarC

theorem Item.Elaborates.takes {scope after : Scope} {item : Item} {node : Node}
    (elaborates : item.Elaborates scope node after) :
    node.name? = some item.name.text ∧ scope.moduleNameTaken item.name.text = false ∧
      ∀ name, after.moduleNameTaken name =
        (item.name.text = name || scope.moduleNameTaken name) := by
  cases elaborates with
  | unset declares | set declares =>
      obtain ⟨free, rfl, rfl⟩ := Scope.declareGlobal_eq_ok.mp declares
      exact ⟨rfl, free, Scope.moduleNameTaken_global _ _⟩
  | @function entered _ _ _ _ _ _ _ parameters declares body =>
      obtain ⟨free, rfl⟩ := Scope.declareFunction_eq_ok.mp declares
      obtain ⟨globals, functions⟩ := parameters.module_same
      have before (name : String) : entered.moduleNameTaken name = scope.moduleNameTaken name := by
        rw [Scope.moduleNameTaken, Scope.function?, globals, functions]
        rfl
      obtain ⟨globals, functions⟩ := body.module_same
      refine ⟨rfl, (before _).symm.trans free, ?_⟩
      intro name
      rw [← before, ← Scope.moduleNameTaken_function, Scope.moduleNameTaken, Scope.function?,
        Scope.exitFunction, globals, functions]
      rfl

theorem Program.Elaborates.distinct {scope after : Scope} {items : List Item} {nodes : List Node}
    (elaborates : Elaborates scope items nodes after) :
    nodes.map Node.name? = items.map (fun item => some item.name.text) ∧
      (items.map fun item => item.name.text).Nodup ∧
      ∀ item ∈ items, scope.moduleNameTaken item.name.text = false := by
  induction elaborates with
  | nil => simp
  | cons first _ ih =>
      obtain ⟨named, free, taken⟩ := first.takes
      obtain ⟨names, distinct, others⟩ := ih
      -- The name of the first item is taken in the scope of the others, theirs are free there.
      refine ⟨by simp [named, names], List.nodup_cons.mpr ⟨?_, distinct⟩, ?_⟩
      · intro member
        obtain ⟨other, present, same⟩ := List.mem_map.mp member
        simpa [taken, same] using others other present
      · rw [List.forall_mem_cons]
        constructor
        · exact free
        · intro other present
          exact (Bool.or_eq_false_iff.mp ((taken _).symm.trans (others other present))).2

theorem Program.Elaborates.events_in_function {scope after : Scope} {items : List Item}
    {nodes : List Node} (elaborates : Elaborates scope items nodes after) :
    ∀ node ∈ nodes, node.events ≠ [] → node.tag = .function := by
  induction elaborates with
  | nil => simp
  | cons first _ ih =>
      refine List.forall_mem_cons.mpr ⟨fun events => ?_, ih⟩
      cases first with
      | unset => exact absurd (by simp [Node.events, Node.event?]) events
      | set _ converted =>
          exact absurd (by simp [Node.events, Node.event?, Phrase.literal_events converted]) events
      | function => rfl

section Module

variable {constants : String → Prop} {earlier : List Node}

theorem Scope.Records.behind {own : Option String} {scope : Scope}
    (records : scope.Records constants earlier own) (node : Node)
    (known : ∀ name, own = some name → node.functionName? = some name) :
    scope.Records constants (earlier ++ [node]) none := by
  constructor
  · intro entry member
    obtain ⟨isGlobal, constant, other, present, declares⟩ := records.globals entry member
    exact ⟨isGlobal, constant, other, by simp [present], declares⟩
  · intro name signature found
    rcases records.functions name signature found with itself | ⟨other, present, named⟩
    · exact .inr ⟨node, by simp, known name itself⟩
    · exact .inr ⟨other, by simp [present], named⟩

theorem Item.Declares.leads {own : Option String} {scope after : Scope}
    {parameters : List (Token × DataType)} (declares : Declares scope parameters after)
    {before : List Event} (tracks : scope.Tracks constants earlier own before) :
    Leads constants earlier own before (Node.eventsAll (parameters.map parameterNode)) after := by
  induction declares generalizing before with
  | nil => exact ⟨trivial, by simpa using tracks⟩
  | cons entered _ ih =>
      have first := tracks.declare rfl entered
      simpa [parameterNode, Node.events, Node.event?, Node.naming, Node.name?] using
        first.trans (ih first.2)

theorem Scope.Records.declareGlobal {scope after : Scope}
    (records : scope.Records constants earlier none) {name : String} {type : DataType}
    {constant : Bool} {entry : Variable} {place : Location}
    (declares : scope.declareGlobal name type constant place = .ok (entry, after))
    (isConstant : constants name → constant = true) (children : List Node) :
    after.Records constants
      (earlier ++ [⟨.globalVar, some (.name name), some type, children⟩]) none := by
  obtain ⟨_, rfl, rfl⟩ := Scope.declareGlobal_eq_ok.mp declares
  obtain ⟨globals, functions⟩ :=
    records.behind ⟨.globalVar, some (.name name), some type, children⟩ (by simp)
  refine ⟨List.forall_mem_cons.mpr ⟨⟨?_, ?_, ?_⟩, globals⟩, functions⟩
  · cases constant <;> rfl
  · intro declared
    simp [isConstant declared]
  · exact ⟨_, List.mem_append_right _ (List.mem_singleton_self _), rfl, rfl, rfl⟩

/-- An item refers to those before it and to itself, and is recorded behind them. -/
theorem Item.Elaborates.resolves {scope after : Scope} {item : Item} {node : Node}
    (elaborates : item.Elaborates scope node after)
    (records : scope.Records constants earlier none)
    (isConstant : ∀ constant type name value, item = .global constant type name value →
      constants name.text → constant = true) :
    Resolves constants earlier node.functionName? [] node.events ∧
      after.Records constants (earlier ++ [node]) none := by
  cases elaborates with
  | unset declares =>
      exact ⟨by simp [Node.events, Node.event?, Resolves],
        records.declareGlobal declares (isConstant _ _ _ _ rfl) _⟩
  | set declares converted =>
      exact ⟨by simp [Node.events, Node.event?, Phrase.literal_events converted, Resolves],
        records.declareGlobal declares (isConstant _ _ _ _ rfl) _⟩
  | @function _ _ _ _ name _ _ _ parameters declares body =>
      have entering : scope.enterFunction.Tracks constants earlier (some name.text) [] :=
        { globals := records.globals
          functions := fun name signature found =>
            .inr ((records.functions name signature found).resolve_left (by simp))
          frame := ⟨[], rfl, by simp, by simp⟩ }
      have header := parameters.leads entering
      -- From here on the function may be called, by itself first.
      obtain ⟨_, rfl⟩ := Scope.declareFunction_eq_ok.mp declares
      have inside := Command.elaborates_leads body
        { globals := header.2.globals
          functions := by
            intro called signature found
            rw [Scope.function?, List.lookup_cons] at found
            split at found
            · rename_i same
              exact .inl (by rw [beq_iff_eq.mp same])
            · exact header.2.functions called signature found
          frame := header.2.frame }
      have whole := header.trans inside
      have left : Scope.Records constants earlier (some name.text) (Scope.exitFunction _) :=
        ⟨whole.2.globals, whole.2.functions⟩
      constructor
      · simpa [Node.events, Node.event?, Node.functionName?, Node.name?] using whole.1
      · apply left.behind
        intro other same
        simpa [Node.functionName?, Node.name?] using same

theorem Program.Elaborates.resolves {scope after : Scope} {items : List Item} {nodes : List Node}
    (elaborates : Elaborates scope items nodes after)
    (records : scope.Records constants earlier none)
    (isConstant : ∀ constant type name value, .global constant type name value ∈ items →
      constants name.text → constant = true) {before later : List Node} {node : Node}
    (split : nodes = before ++ node :: later) :
    Resolves constants (earlier ++ before) node.functionName? [] node.events := by
  induction elaborates generalizing earlier before with
  | nil => simp at split
  | @cons _ _ _ item _ _ _ first _ ih =>
      obtain ⟨resolves, recorded⟩ := first.resolves records fun constant type name value same =>
        isConstant constant type name value (by simp [same])
      cases before with
      | nil =>
          obtain ⟨rfl, rfl⟩ := List.cons.inj split
          simpa using resolves
      | cons head before =>
          obtain ⟨rfl, rest⟩ := List.cons.inj split
          simpa using ih recorded
            (fun constant type name value member => isConstant constant type name value
              (by simp [member])) rest

end Module

theorem Program.constant_of_same {items : List Item}
    (distinct : (items.map fun item => item.name.text).Nodup) {constant : Bool}
    {first other : DataType} {name token : Token} {value given : Option Literal}
    (declared : .global constant first name value ∈ items)
    (isConstant : .global true other token given ∈ items) (same : token.text = name.text) :
    constant = true := by
  have one := List.inj_on_of_nodup_map distinct declared isConstant same.symm
  cases one
  rfl

/-- In an accepted module every name is declared once, and before it is used. -/
theorem parse_resolves {tokens : List Token} {module : Node} (parsed : parse tokens = .ok module) :
    module.Resolved (DeclaredConstant tokens) := by
  obtain ⟨read, finish, items, nodes, final, rfl, closed, derives, elaborates, rfl⟩ :=
    parse_reads parsed
  obtain ⟨names, distinct, _⟩ := elaborates.distinct
  have empty : Scope.empty.Records (DeclaredConstant (read ++ [finish])) [] none :=
    ⟨by simp [Scope.empty], by simp [Scope.empty, Scope.function?]⟩
  have isConstant (constant : Bool) (type : DataType) (name : Token) (value : Option Literal)
      (member : .global constant type name value ∈ items)
      (declared : DeclaredConstant (read ++ [finish]) name.text) : constant = true := by
    obtain ⟨_, token, _, present, same⟩ := derives.constant_of_declared
      (by simpa using plain_of_kind closed.1 (by decide)) declared
    exact Program.constant_of_same distinct member present same
  have resolves {before later : List Node} {node : Node}
      (split : nodes = before ++ node :: later) :=
    elaborates.resolves empty isConstant split
  constructor
  · simpa [names, Function.comp_def] using distinct.map fun _ _ => Option.some.inj
  · exact elaborates.events_in_function
  · intro item member
    obtain ⟨earlier, later, split⟩ := List.append_of_mem member
    simpa using (resolves split).distinct (by simp)
  · intro earlier item later before event after split events
    have resolved := resolves split
    rw [events] at resolved
    simpa using resolved.split

theorem sample_resolves :
    ∃ tokens, parse tokens = .ok Program.sampleTree ∧
      Program.sampleTree.Resolved (DeclaredConstant tokens) := by
  obtain ⟨tokens, _, parsed⟩ := Program.sample_accepted
  exact ⟨tokens, parsed, parse_resolves parsed⟩

end ScalarC
