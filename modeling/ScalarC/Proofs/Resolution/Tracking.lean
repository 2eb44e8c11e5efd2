import ScalarC.Proofs.Item.Soundness
import ScalarC.Proofs.Phrase.Nodes
import ScalarC.Proofs.Resolution.Constants
import ScalarC.Proofs.Resolution.Events

/-!
A scope keeps track of what has been declared on the way to it. `Scope.Records`
ties it to the items of the module so far and `Scope.Tracks` to the variables of
the function too; elaboration looks names up in the scope, so every event it
leaves behind is resolved.
-/

namespace ScalarC

namespace Variable

def use (source : Variable) (writes : Bool) : Event :=
  if source.storage.isLocal then .usesLocal source.name source.type
  else .usesGlobal source.name source.type writes

theorem use_declares_none (source : Variable) (writes : Bool) :
    (source.use writes).declared? = none := by
  unfold use
  split <;> rfl

theorem events_get (source : Variable) : source.get.events = [source.use false] := by
  cases isLocal : source.storage.isLocal <;>
    simp [get, use, isLocal, Node.events, Node.event?, Node.naming, Node.name?]

theorem events_set (target : Variable) (value : Node) :
    (target.set value).events = value.events ++ [target.use true] := by
  cases isLocal : target.storage.isLocal <;>
    simp [set, use, isLocal, Node.events, Node.event?, Node.naming, Node.name?]

end Variable

section Operator

variable (type : Option DataType) (children : List Node)

theorem Connective.events_node (operator : Connective) :
    Node.events ⟨operator.tag, none, type, children⟩ = Node.eventsAll children := by
  cases operator <;> simp [tag, Node.events, Node.event?]

theorem Comparison.events_node (operator : Comparison) :
    Node.events ⟨operator.tag, none, type, children⟩ = Node.eventsAll children := by
  cases operator <;> simp [tag, Node.events, Node.event?]

theorem Arithmetic.events_node (operator : Arithmetic) :
    Node.events ⟨operator.tag, none, type, children⟩ = Node.eventsAll children := by
  cases operator <;> simp [tag, Node.events, Node.event?]

end Operator

section Function

variable {constants : String → Prop} {earlier : List Node} {own : Option String}

/-- The scope holds the variables and functions of the module so far; a constant is known as one. -/
structure Scope.Records (constants : String → Prop) (earlier : List Node) (own : Option String)
    (scope : Scope) : Prop where
  globals : ∀ entry ∈ scope.globals, entry.storage.isLocal = false ∧
    (constants entry.name → entry.storage = .globalConstant) ∧
    ∃ node ∈ earlier, node.tag = .globalVar ∧ node.name? = some entry.name ∧
      node.type = some entry.type
  functions : ∀ name signature, scope.function? name = some signature →
    own = some name ∨ ∃ node ∈ earlier, node.functionName? = some name

/-- Inside a function the scope also holds the variables declared in it so far. -/
structure Scope.Tracks (constants : String → Prop) (earlier : List Node) (own : Option String)
    (scope : Scope) (before : List Event) : Prop extends
    scope.Records constants earlier own where
  frame : ∃ entries, scope.locals = some entries ∧
    (∀ entry ∈ entries, entry.storage.isLocal = true) ∧
    ∀ name type, .declares name type ∈ before ↔
      ∃ entry ∈ entries, entry.name = name ∧ entry.type = type

/-- The events between two scopes are resolved, and the later scope keeps track of them. -/
def Leads (constants : String → Prop) (earlier : List Node) (own : Option String)
    (before events : List Event) (after : Scope) : Prop :=
  Resolves constants earlier own before events ∧
    after.Tracks constants earlier own (before ++ events)

theorem Leads.trans {before first second : List Event} {middle after : Scope}
    (leads : Leads constants earlier own before first middle)
    (further : Leads constants earlier own (before ++ first) second after) :
    Leads constants earlier own before (first ++ second) after :=
  ⟨resolves_append.mpr ⟨leads.1, further.1⟩, by simpa using further.2⟩

namespace Scope.Tracks

variable {scope : Scope} {before : List Event}

theorem behind_uses (tracks : scope.Tracks constants earlier own before) {events : List Event}
    (uses : ∀ event ∈ events, event.declared? = none ∧
      event.Resolved constants earlier own before) :
    Leads constants earlier own before events scope := by
  obtain ⟨entries, frame, areLocal, same⟩ := tracks.frame
  refine ⟨resolves_of_uses uses, tracks.toRecords, entries, frame, areLocal, ?_⟩
  intro name type
  rw [← same name type, List.mem_append, or_iff_left]
  intro member
  cases (uses _ member).1

theorem use_resolved (tracks : scope.Tracks constants earlier own before) {name : String}
    {found : Variable} (is : scope.find? name = some found) (writes : Bool)
    (writable : writes = true → found.storage ≠ .globalConstant) :
    (found.use writes).Resolved constants earlier own before := by
  obtain ⟨entries, frame, areLocal, same⟩ := tracks.frame
  rcases Scope.find?_eq_some.mp is with ⟨_, framed, mine⟩ | ⟨none, global⟩
  -- A variable of the function hides those of the module, and is never a constant.
  · cases frame.symm.trans framed
    have member := (Scope.mem_of_findVariable? mine).1
    rw [Variable.use, if_pos (areLocal found member)]
    exact (same _ _).mpr ⟨found, member, rfl, rfl⟩
  · obtain ⟨member, named⟩ := Scope.mem_of_findVariable? global
    obtain ⟨isGlobal, constant, node, declared⟩ := tracks.globals found member
    rw [Variable.use, if_neg (by simp [isGlobal])]
    refine ⟨⟨node, declared⟩, ?_, ?_⟩
    · intro type hidden
      obtain ⟨entry, present, isNamed, _⟩ := (same _ _).mp hidden
      exact Scope.findVariable?_eq_none.mp (none entries frame) entry present (isNamed.trans named)
    · intro writing isConstant
      exact writable writing (constant isConstant)

theorem declare (tracks : scope.Tracks constants earlier own before) {declared entry : Variable}
    {after : Scope} {place : Location} (isLocal : declared.storage.isLocal = true)
    (entered : scope.declareInFunction declared place = .ok (entry, after)) :
    Leads constants earlier own before [.declares declared.name declared.type] after := by
  obtain ⟨entries, frame, areLocal, same⟩ := tracks.frame
  obtain ⟨_, framed, fresh, rfl, rfl⟩ := Scope.declareInFunction_eq_ok.mp entered
  cases frame.symm.trans framed
  have resolved (type : DataType) : .declares entry.name type ∉ before := by
    intro present
    obtain ⟨other, member, named, _⟩ := (same _ _).mp present
    exact Scope.findVariable?_eq_none.mp fresh other member named
  refine ⟨⟨resolved, trivial⟩, ⟨tracks.globals, tracks.functions⟩, _, rfl, ?_, ?_⟩
  · exact List.forall_mem_cons.mpr ⟨isLocal, areLocal⟩
  · intro name type
    simp only [List.mem_append, same name type, List.mem_singleton, List.exists_mem_cons_iff,
      Event.declares.injEq]
    rw [or_comm, eq_comm (a := name), eq_comm (a := type)]

end Scope.Tracks

namespace Phrase

theorem literal_events {literal : Literal} {type : DataType} {node : Node}
    (is : literal.node? type = some node) : node.events = [] := by
  obtain ⟨value, _, rfl⟩ := Literal.node?_eq_some.mp is
  simp [Node.events, Node.event?]

theorem gives_uses {scope : Scope} {before : List Event}
    (tracks : scope.Tracks constants earlier own before) {phrases : List Phrase}
    {nodes : List Node} (gives : Gives scope phrases nodes) :
    ∀ event ∈ Node.eventsAll nodes, event.declared? = none ∧
      event.Resolved constants earlier own before := by
  induction gives with
  | nil => simp
  | cons _ _ first others =>
      rw [Node.eventsAll_cons, List.forall_mem_append]
      exact ⟨by simpa using first, others⟩
  | literal _ is => simp [literal_events is]
  | @reference _ source found =>
      simp only [Node.eventsAll_cons, Variable.events_get, Node.eventsAll_nil, List.append_nil,
        List.forall_mem_singleton]
      exact ⟨source.use_declares_none _, tracks.use_resolved found false (by simp)⟩
  | call found _ _ ih =>
      have called := tracks.functions _ _ found
      simp only [Node.eventsAll_cons, Node.events, Node.event?, Node.eventsAll_nil,
        List.append_nil, List.forall_mem_append, Option.toList_some, List.forall_mem_singleton]
      exact ⟨ih, rfl, called⟩
  | group _ ih | unchanged _ _ ih => exact ih
  | negation _ _ _ ih | complement _ _ ih | conversion _ _ _ _ ih =>
      simpa [Node.events, Node.event?] using ih
  | connective _ _ _ _ left right | comparison _ _ _ _ left right
  | arithmetic _ _ _ _ _ left right =>
      simp only [Node.eventsAll_cons, Connective.events_node, Comparison.events_node,
        Arithmetic.events_node, Node.eventsAll_nil, List.append_nil,
        List.forall_mem_append] at left right ⊢
      exact ⟨left, right⟩
  | @assignment _ _ _ _ target found writable _ _ ih =>
      simp only [Node.eventsAll_cons, Variable.events_set, Node.eventsAll_nil, List.append_nil,
        List.forall_mem_append, List.forall_mem_singleton] at ih ⊢
      exact ⟨ih, target.use_declares_none _, tracks.use_resolved found true fun _ => writable⟩
  | @compound _ _ _ _ _ target found writable _ _ _ ih =>
      simp only [Node.eventsAll_cons, Variable.events_set, Variable.events_get,
        Arithmetic.events_node, Node.eventsAll_nil, List.append_nil, List.forall_mem_append,
        List.forall_mem_singleton] at ih ⊢
      -- A compound assignment reads its variable before the value and writes it behind.
      exact ⟨⟨⟨target.use_declares_none _, tracks.use_resolved found false (by simp)⟩, ih⟩,
        target.use_declares_none _, tracks.use_resolved found true fun _ => writable⟩

theorem elaborate_leads {scope : Scope} {before : List Event}
    (tracks : scope.Tracks constants earlier own before) {phrase : Phrase} {type : DataType}
    {node : Node} (elaborated : phrase.elaborate scope type = some node) :
    Leads constants earlier own before node.events scope :=
  tracks.behind_uses (by simpa using gives_uses tracks (elaborate_gives elaborated))

end Phrase

namespace Command

theorem events_asStatement (node : Node) : node.asStatement.events = node.events := by
  unfold Node.asStatement
  split
  · rfl
  · simp [Node.events, Node.event?]

theorem events_body (command : Command) (node : Node) :
    (command.body node).events = node.events := by
  cases command <;> simp [body, Node.events, Node.event?]

theorem elaborates_leads {function : Enclosing} {depth : Nat} {scope after : Scope}
    {commands : List Command} {nodes : List Node}
    (elaborates : Elaborates function depth scope commands nodes after) {before : List Event}
    (tracks : scope.Tracks constants earlier own before) :
    Leads constants earlier own before (Node.eventsAll nodes) after := by
  induction elaborates generalizing before with
  | nil => exact ⟨trivial, by simpa using tracks⟩
  | cons _ _ first others =>
      have head := first tracks
      rw [Node.eventsAll_cons, Node.eventsAll_nil, List.append_nil] at head
      exact head.trans (others head.2)
  | declared entered =>
      simpa [Node.events, Node.event?, Node.naming, Node.name?] using tracks.declare rfl entered
  | initialized yields entered =>
      -- The value is read before its variable is declared.
      have value := Phrase.elaborate_leads tracks yields.1
      simpa [Node.events, Node.event?, Node.naming, Node.name?] using
        value.trans (value.2.declare rfl entered)
  | returned | breakLoop | continueLoop =>
      exact ⟨by simp [Node.events, Node.event?, Resolves],
        by simpa [Node.events, Node.event?] using tracks⟩
  | returnedValue _ yields =>
      simpa [Node.events, Node.event?] using Phrase.elaborate_leads tracks yields.1
  | branch test _ ih | whileLoop test _ ih =>
      have condition := Phrase.elaborate_leads tracks test.1
      simpa [Node.events, Node.event?, events_body] using condition.trans (ih condition.2)
  | branchElse test _ _ first second =>
      have condition := Phrase.elaborate_leads tracks test.1
      have chosen := condition.trans (first condition.2)
      simpa [Node.events, Node.event?, events_body] using chosen.trans (second chosen.2)
  | doLoop _ test ih =>
      have repeated := ih tracks
      simpa [Node.events, Node.event?, events_body] using
        repeated.trans (Phrase.elaborate_leads repeated.2 test.1)
  | block _ ih => simpa [Node.events, Node.event?] using ih tracks
  | expression elaborated =>
      simpa [events_asStatement] using Phrase.elaborate_leads tracks elaborated

end Command

end Function

end ScalarC
