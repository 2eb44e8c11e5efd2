import ScalarC.Proofs.Resolution.Soundness

/-!
What the variables of a function hide. They hide the variables of the module, and
nothing else: a call looks for a function, so a name that is declared as a variable
may still be called if a function has it too. Where no variable takes the name of
a function in reach, no call names a variable.
-/

namespace ScalarC

namespace Phrase

mutual

/-- The names of the variables that a phrase reads or sets. The function of a call is not one. -/
def uses : Phrase → List String
  | number _ => []
  | reference name => [name.text]
  | call _ given _ => usesAll given
  | group _ inner => inner.uses
  | negate _ inner => inner.uses
  | complement _ inner => inner.uses
  | cast _ _ inner => inner.uses
  | binary _ _ left right => left.uses ++ right.uses
  | assign name _ _ value => name.text :: value.uses

def usesAll : List Phrase → List String
  | [] => []
  | phrase :: others => phrase.uses ++ usesAll others

end

/-- Two scopes with the same functions, where all names but one mean the same variables. -/
structure Same (hidden : String) (scope other : Scope) : Prop where
  lookups : ∀ name ≠ hidden, ∀ place, other.lookup name place = scope.lookup name place
  functions : ∀ name place, other.lookupFunction name place = scope.lookupFunction name place

theorem same_of_declared {scope after : Scope} {declared entry : Variable} {place : Location}
    (declares : scope.declareInFunction declared place = .ok (entry, after)) :
    Same declared.name scope after := by
  obtain ⟨locals, frame, _, rfl, rfl⟩ := Scope.declareInFunction_eq_ok.mp declares
  refine ⟨fun name other place => ?_, fun name place => rfl⟩
  have found : Scope.findVariable? name (entry :: locals) = Scope.findVariable? name locals := by
    simp [Scope.findVariable?, Ne.symm other]
  simp [Scope.lookup, Scope.find?, frame, found]

variable {hidden : String} {scope other : Scope} (same : Same hidden scope other)

theorem arguments_same {given : List Phrase} (absent : hidden ∉ usesAll given)
    (each : ∀ phrase ∈ given, hidden ∉ phrase.uses →
      phrase.operand other = phrase.operand scope)
    (name : String) (position : Nat) (types : List DataType) :
    arguments other name position given types = arguments scope name position given types := by
  induction given generalizing position types with
  | nil => rfl
  | cons phrase given ih =>
      simp only [usesAll, List.mem_append, not_or] at absent
      obtain ⟨first, others⟩ := List.forall_mem_cons.mp each
      cases types with
      | nil => rfl
      | cons type types => simp [arguments, first absent.1, ih absent.2 others]

include same in
/-- A phrase that neither reads nor sets a variable means the same wherever that is the only one
to differ, whatever functions it calls. -/
theorem operand_same (phrase : Phrase) (absent : hidden ∉ phrase.uses) :
    phrase.operand other = phrase.operand scope := by
  induction phrase with
  | number token => rfl
  | reference name =>
      simp only [uses, List.mem_singleton] at absent
      simp [operand, same.lookups _ (Ne.symm absent)]
  | call name given closing each =>
      simp [operand, same.functions, arguments_same absent each]
  | group opening inner ih => exact ih absent
  | negate mark inner ih | complement mark inner ih | cast opening target inner ih =>
      simp [operand, ih absent]
  | binary operator mark left right first second =>
      simp only [uses, List.mem_append, not_or] at absent
      simp [operand, first absent.1, second absent.2]
  | assign name form mark value ih =>
      simp only [uses, List.mem_cons, not_or] at absent
      simp [operand, same.lookups _ (Ne.symm absent.1), ih absent.2]

end Phrase

namespace Node

def CallsVariable (item : Node) (name : String) : Prop :=
  ∃ before type after, item.events = before ++ .calls name :: after ∧ .declares name type ∈ before

/-- The names of the functions in reach of an item: its own and those of earlier items. -/
def Reaches (earlier : List Node) (item : Node) (name : String) : Prop :=
  item.functionName? = some name ∨ ∃ node ∈ earlier, node.functionName? = some name

def Clashes (earlier : List Node) (item : Node) : Prop :=
  ∃ name type, .declares name type ∈ item.events ∧ Reaches earlier item name

end Node

theorem parse_events {tokens : List Token} {module : Node} (parsed : parse tokens = .ok module)
    {earlier later : List Node} {item : Node} (split : module.children = earlier ++ item :: later)
    {before after : List Event} {event : Event}
    (occurs : item.events = before ++ event :: after) :
    event.Resolved (fun _ => False) earlier item.functionName? before := by
  obtain ⟨_, _, _, _, _, rfl, _, _, elaborates, rfl⟩ := parse_reads parsed
  have empty : Scope.empty.Records (fun _ => False) [] none :=
    ⟨by simp [Scope.empty], by simp [Scope.empty, Scope.function?]⟩
  have resolved := elaborates.resolves empty (fun _ _ _ _ _ => False.elim) split
  rw [occurs] at resolved
  simpa using resolved.split

/-- In an accepted module the variables of a function hide those of the module. They do not hide
functions: what only calls a name means the same behind the declaration of a variable of that name.
So a call names a variable only if a function in reach has the same name, and none does if no
variable has such a name. -/
theorem parse_hides_variables {tokens : List Token} {module : Node}
    (parsed : parse tokens = .ok module) {earlier later : List Node} {item : Node}
    (split : module.children = earlier ++ item :: later) :
    (∀ before name type writes after,
      item.events = before ++ .usesGlobal name type writes :: after →
        ∀ other, .declares name other ∉ before) ∧
    (∀ scope declared place entry after,
      Scope.declareInFunction scope declared place = .ok (entry, after) →
        ∀ phrase, declared.name ∉ Phrase.uses phrase →
          phrase.operand after = phrase.operand scope) ∧
    (∀ name, item.CallsVariable name → Node.Reaches earlier item name) ∧
    (¬ Node.Clashes earlier item → ∀ name, ¬ item.CallsVariable name) := by
  have reaches (name : String) (calls : item.CallsVariable name) :
      Node.Reaches earlier item name := by
    obtain ⟨_, _, _, occurs, _⟩ := calls
    exact parse_events parsed split occurs
  refine ⟨fun _ _ _ _ _ occurs => (parse_events parsed split occurs).2.1, ?_, reaches, ?_⟩
  · intro scope declared place entry after declares phrase absent
    exact Phrase.operand_same (Phrase.same_of_declared declares) phrase absent
  · intro apart name calls
    obtain ⟨before, type, after, occurs, declared⟩ := id calls
    exact apart ⟨name, type, by simp [occurs, declared], reaches name calls⟩

theorem sample_calls_no_variable :
    ∃ tokens, parse tokens = .ok Program.sampleTree ∧
      ∀ item ∈ Program.sampleTree.children.getLast?, ∀ name, ¬ item.CallsVariable name := by
  obtain ⟨tokens, _, parsed⟩ := Program.sample_accepted
  refine ⟨tokens, parsed, fun item last => ?_⟩
  cases last
  refine (parse_hides_variables parsed
    (show Program.sampleTree.children = [_] ++ _ :: [] from rfl)).2.2.2 ?_
  rintro ⟨name, type, declared, own | ⟨node, member, named⟩⟩
  · cases own
    revert declared
    cases type <;> decide
  · cases List.mem_singleton.mp member
    cases named

/-- A parameter with the name of an earlier function, which is called. -/
def clashing : String :=
  "int g(int x) \x7b return x; \x7d int f(int g) \x7b return g(g); \x7d"

def clashingTree : Node :=
  let named (tag : Tag) (name : String) (children : List Node) : Node :=
    ⟨tag, some (.name name), some .i32, children⟩
  let function (name parameter : String) (result : Node) : Node :=
    named .function name [⟨.parameters, none, none, [named .parameter parameter []]⟩,
      ⟨.body, none, none, [named .returned name [result]]⟩]
  ⟨.module, none, none, [function "g" "x" (named .localGet "x" []),
    function "f" "g" (named .call "g" [named .localGet "g" []])]⟩

theorem clashing_calls_variable :
    ((tokenize clashing).toOption.bind fun tokens => (parse tokens).toOption) =
      some clashingTree ∧
    ∃ item ∈ clashingTree.children, item.CallsVariable "g" := by
  refine ⟨by decide +kernel, _, List.mem_cons_of_mem _ (List.mem_singleton_self _),
    [.declares "g" .i32, .usesLocal "g" .i32], .i32, [], by decide, by simp⟩

end ScalarC
