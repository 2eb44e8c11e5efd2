import ScalarC.Node.Basic

/-!
The names in a tree, from left to right. A node comes after its children, so the
value of a variable is read before the variable is declared. `Event.Resolved`
says what each use of a name may refer to, by what comes before it.
-/

namespace ScalarC

inductive Event where
  | declares (name : String) (type : DataType)
  | usesLocal (name : String) (type : DataType)
  | usesGlobal (name : String) (type : DataType) (writes : Bool)
  | calls (name : String)
  | unnamed
  deriving DecidableEq

def Event.declared? : Event → Option String
  | declares name _ => some name
  | _ => none

namespace Node

/-- What a node with a name and a type does with them, if it has both. -/
def naming (node : Node) (event : String → DataType → Event) : Event :=
  match node.name?, node.type with
  | some name, some type => event name type
  | _, _ => .unnamed

/-- What a node does with a name by itself. -/
def event? (node : Node) : Option Event :=
  match node.tag with
  | .parameter | .localVar => some (node.naming .declares)
  | .localGet | .localSet => some (node.naming .usesLocal)
  | .globalGet => some (node.naming fun name type => .usesGlobal name type false)
  | .globalSet => some (node.naming fun name type => .usesGlobal name type true)
  | .call => some (node.name?.elim .unnamed .calls)
  | _ => none

def functionName? (node : Node) : Option String :=
  if node.tag = .function then node.name? else none

mutual

def events : Node → List Event
  | ⟨tag, value, type, children⟩ =>
      eventsAll children ++ (event? ⟨tag, value, type, children⟩).toList

def eventsAll : List Node → List Event
  | [] => []
  | node :: rest => events node ++ eventsAll rest

end

@[simp] theorem eventsAll_nil : eventsAll [] = [] := rfl

@[simp] theorem eventsAll_cons (node : Node) (rest : List Node) :
    eventsAll (node :: rest) = events node ++ eventsAll rest := rfl

end Node

/-- What a use of a name may refer to: the variables declared before it in the function, the
items of the module earlier than the function, and for a call the function itself. -/
def Event.Resolved (constants : String → Prop) (earlier : List Node) (own : Option String)
    (before : List Event) : Event → Prop
  | declares name _ => ∀ type, declares name type ∉ before
  | usesLocal name type => declares name type ∈ before
  | usesGlobal name type writes =>
      (∃ node ∈ earlier, node.tag = .globalVar ∧ node.name? = some name ∧ node.type = some type) ∧
        (∀ other, declares name other ∉ before) ∧ (writes = true → ¬ constants name)
  | calls name => own = some name ∨ ∃ node ∈ earlier, node.functionName? = some name
  | unnamed => False

/-- The names in the tree of a module refer to what they may. -/
structure Node.Resolved (constants : String → Prop) (module : Node) : Prop where
  items : (module.children.map Node.name?).Nodup
  functions : ∀ item ∈ module.children, item.events ≠ [] → item.tag = .function
  declarations : ∀ item ∈ module.children, (item.events.filterMap Event.declared?).Nodup
  uses : ∀ earlier item later before event after,
    module.children = earlier ++ item :: later → item.events = before ++ event :: after →
      event.Resolved constants earlier item.functionName? before

section Resolution

variable (constants : String → Prop) (earlier : List Node) (own : Option String)

/-- Every event is resolved by those before it. -/
def Resolves (before : List Event) : List Event → Prop
  | [] => True
  | event :: rest =>
      event.Resolved constants earlier own before ∧ Resolves (before ++ [event]) rest

variable {constants earlier own}

theorem resolves_append {before first second : List Event} :
    Resolves constants earlier own before (first ++ second) ↔
      Resolves constants earlier own before first ∧
        Resolves constants earlier own (before ++ first) second := by
  induction first generalizing before with
  | nil => simp [Resolves]
  | cons event rest ih => simp [Resolves, ih, and_assoc]

theorem resolved_behind {use event : Event} {before : List Event} (uses : use.declared? = none) :
    event.Resolved constants earlier own (before ++ [use]) ↔
      event.Resolved constants earlier own before := by
  have kept (name : String) (type : DataType) :
      .declares name type ∈ before ++ [use] ↔ .declares name type ∈ before := by
    cases use <;> simp_all [Event.declared?]
  cases event <;> simp only [Event.Resolved, kept]

theorem resolves_of_uses {before events : List Event}
    (uses : ∀ event ∈ events, event.declared? = none ∧
      event.Resolved constants earlier own before) :
    Resolves constants earlier own before events := by
  induction events generalizing before with
  | nil => trivial
  | cons event rest ih =>
      obtain ⟨⟨use, resolved⟩, others⟩ := List.forall_mem_cons.mp uses
      refine ⟨resolved, ih fun later member => ?_⟩
      exact ⟨(others later member).1, (resolved_behind use).mpr (others later member).2⟩

theorem Resolves.split {before first rest : List Event} {event : Event}
    (resolves : Resolves constants earlier own before (first ++ event :: rest)) :
    event.Resolved constants earlier own (before ++ first) :=
  (resolves_append.mp resolves).2.1

theorem Resolves.distinct {before events : List Event}
    (resolves : Resolves constants earlier own before events)
    (distinct : (before.filterMap Event.declared?).Nodup) :
    ((before ++ events).filterMap Event.declared?).Nodup := by
  induction events generalizing before with
  | nil => simpa using distinct
  | cons event rest ih =>
      obtain ⟨resolved, resolves⟩ := resolves
      have step : ((before ++ [event]).filterMap Event.declared?).Nodup := by
        rw [List.filterMap_append]
        cases event with
        | declares name type =>
            -- A resolved declaration is the first of its name, whatever the types are.
            have fresh : name ∉ before.filterMap Event.declared? := by
              intro member
              obtain ⟨other, present, same⟩ := List.mem_filterMap.mp member
              cases other with
              | declares other type =>
                  cases same
                  exact resolved type present
              | _ => cases same
            simp only [List.filterMap_cons, Event.declared?, List.filterMap_nil]
            refine List.nodup_append.mpr ⟨distinct, by simp, ?_⟩
            intro other present last isLast same
            exact fresh (List.mem_singleton.mp isLast ▸ same ▸ present)
        | usesLocal | usesGlobal | calls | unnamed =>
            simpa only [List.filterMap_cons, Event.declared?, List.filterMap_nil,
              List.append_nil] using distinct
      simpa using ih resolves step

end Resolution

end ScalarC
