import Mathlib.Logic.Function.Basic
import ScalarC.Proofs.Scope

/-!
A directory of names says what a scope means: one map for the names of the
module, variables and functions alike, and one for the names of the open
function, if there is one. A scope keeps variables and functions apart, so it
stands for a directory only as long as none of them share a name. Every
operation keeps it that way, and its answer is that of the directory.
-/

namespace ScalarC

inductive Scope.Operation where
  | enter
  | exit
  | declareGlobal (name : String) (type : DataType) (constant : Bool) (place : Location)
  | declareFunction (name : String) (signature : Signature) (place : Location)
  | declareParameter (name : String) (type : DataType) (place : Location)
  | declareLocal (name : String) (type : DataType) (place : Location)
  | lookup (name : String) (place : Location)
  | lookupFunction (name : String) (place : Location)

inductive Scope.Answer where
  | done
  | variable (found : Variable)
  | function (found : Signature)
  deriving DecidableEq

abbrev Scope.Outcome (σ : Type) := Except ParseError Scope.Answer × σ

namespace Scope

section Runs

variable {σ : Type} (perform : σ → Operation → Outcome σ)

def reached (state : σ) (operations : List Operation) : σ :=
  operations.foldl (fun state operation => (perform state operation).2) state

def answers : σ → List Operation → List (Except ParseError Answer)
  | _, [] => []
  | state, operation :: others =>
      (perform state operation).1 :: answers (perform state operation).2 others

@[simp] theorem reached_nil (state : σ) : reached perform state [] = state := rfl

@[simp] theorem reached_cons (state : σ) (operation : Operation) (others : List Operation) :
    reached perform state (operation :: others) =
      reached perform (perform state operation).2 others := rfl

@[simp] theorem reached_append (state : σ) (first second : List Operation) :
    reached perform state (first ++ second) = reached perform (reached perform state first) second :=
  List.foldl_append

end Runs

/-- Where a declaration fails the scope stays as it was. -/
def declaring (scope : Scope) : Except ParseError (Variable × Scope) → Outcome Scope
  | .ok (entry, after) => (.ok (.variable entry), after)
  | .error error => (.error error, scope)

def perform (scope : Scope) : Operation → Outcome Scope
  | .enter => (.ok .done, scope.enterFunction)
  | .exit => (.ok .done, scope.exitFunction)
  | .declareGlobal name type constant place =>
      scope.declaring (scope.declareGlobal name type constant place)
  | .declareFunction name signature place =>
      match scope.declareFunction name signature place with
      | .ok after => (.ok .done, after)
      | .error error => (.error error, scope)
  | .declareParameter name type place => scope.declaring (scope.declareParameter name type place)
  | .declareLocal name type place => scope.declaring (scope.declareLocal name type place)
  | .lookup name place => ((scope.lookup name place).map .variable, scope)
  | .lookupFunction name place => ((scope.lookupFunction name place).map .function, scope)

end Scope

inductive Directory.Binding where
  | variable (bound : Variable)
  | function (bound : Signature)
  deriving DecidableEq

structure Directory where
  module : String → Option Directory.Binding
  locals : Option (String → Option Variable)

namespace Directory

def empty : Directory := ⟨fun _ => none, none⟩

def bind (directory : Directory) (name : String) (binding : Binding) (answer : Scope.Answer)
    (place : Location) : Scope.Outcome Directory :=
  match directory.module name with
  | some _ => (.error (.duplicateSymbol name place), directory)
  | none =>
      (.ok answer, { directory with module := Function.update directory.module name (some binding) })

def bindLocal (directory : Directory) (entry : Variable) (place : Location) :
    Scope.Outcome Directory :=
  match directory.locals with
  | none => (.error (.malformed (.variableOutsideFunction entry.name) place), directory)
  | some locals =>
      match locals entry.name with
      | some _ => (.error (.duplicateSymbol entry.name place), directory)
      | none =>
          (.ok (.variable entry),
            { directory with locals := some (Function.update locals entry.name (some entry)) })

def global (directory : Directory) (name : String) (place : Location) :
    Except ParseError Scope.Answer :=
  match directory.module name with
  | some (.variable entry) => .ok (.variable entry)
  | _ => .error (.undeclaredSymbol name place)

def perform (directory : Directory) : Scope.Operation → Scope.Outcome Directory
  | .enter => (.ok .done, { directory with locals := some fun _ => none })
  | .exit => (.ok .done, { directory with locals := none })
  | .declareGlobal name type constant place =>
      let entry : Variable :=
        ⟨name, type, if constant then .globalConstant else .globalVariable⟩
      directory.bind name (.variable entry) (.variable entry) place
  | .declareFunction name signature place =>
      directory.bind name (.function signature) .done place
  | .declareParameter name type place => directory.bindLocal ⟨name, type, .parameter⟩ place
  | .declareLocal name type place => directory.bindLocal ⟨name, type, .localVariable⟩ place
  | .lookup name place =>
      match directory.locals.bind fun locals => locals name with
      | some entry => (.ok (.variable entry), directory)
      | none => (directory.global name place, directory)
  | .lookupFunction name place =>
      match directory.module name with
      | some (.function signature) => (.ok (.function signature), directory)
      | _ => (.error (.undeclaredSymbol name place), directory)

end Directory

namespace Scope

/-- The directory that a scope stands for. -/
def directory (scope : Scope) : Directory where
  module name := ((findVariable? name scope.globals).map .variable).or
    ((scope.function? name).map .function)
  locals := scope.locals.map fun entries name => findVariable? name entries

/-- No function of the module is named like a variable of it. -/
def Separate (scope : Scope) : Prop :=
  ∀ name, (scope.function? name).isSome → findVariable? name scope.globals = none

theorem separate_empty : empty.Separate := nofun

/-! What declarations change in the directory. -/

theorem findVariable?_cons (entry : Variable) (entries : List Variable) :
    (fun name => findVariable? name (entry :: entries)) =
      Function.update (fun name => findVariable? name entries) entry.name (some entry) := by
  funext name
  by_cases same : name = entry.name
  · subst same
    simp [findVariable?]
  · have other : ¬entry.name = name := fun is => same is.symm
    simp [findVariable?, same, other]

theorem module_eq_none {scope : Scope} {name : String} :
    scope.directory.module name = none ↔ scope.moduleNameTaken name = false := by
  simp [directory, moduleNameTaken, Option.isSome_eq_false_iff]

theorem bound_of_taken {scope : Scope} {name : String} (taken : scope.moduleNameTaken name = true) :
    ∃ binding, scope.directory.module name = some binding := by
  apply Option.ne_none_iff_exists'.mp
  rw [ne_eq, module_eq_none, taken]
  exact Bool.noConfusion

theorem free_of_not_taken {scope : Scope} {name : String}
    (free : scope.moduleNameTaken name = false) :
    findVariable? name scope.globals = none ∧ scope.function? name = none := by
  simpa [moduleNameTaken] using free

theorem directory_global (scope : Scope) (entry : Variable) :
    { scope with globals := entry :: scope.globals }.directory =
      { scope.directory with
        module := Function.update scope.directory.module entry.name (some (.variable entry)) } := by
  have module : { scope with globals := entry :: scope.globals }.directory.module =
      Function.update scope.directory.module entry.name (some (.variable entry)) := by
    funext name
    have found := congrFun (findVariable?_cons entry scope.globals) name
    by_cases same : name = entry.name
    · subst same
      simp_all [directory]
    · simp_all [directory, function?]
  exact congrArg (Directory.mk · _) module

theorem directory_function {scope : Scope} {name : String} (signature : Signature)
    (free : scope.moduleNameTaken name = false) :
    { scope with functions := (name, signature) :: scope.functions }.directory =
      { scope.directory with
        module := Function.update scope.directory.module name (some (.function signature)) } := by
  have unbound := (free_of_not_taken free).1
  have module : { scope with functions := (name, signature) :: scope.functions }.directory.module =
      Function.update scope.directory.module name (some (.function signature)) := by
    funext other
    by_cases same : other = name
    · subst same
      simp [directory, function?, unbound]
    · have differs : (other == name) = false := beq_eq_false_iff_ne.mpr same
      simp [directory, function?, same, List.lookup_cons, differs]
  exact congrArg (Directory.mk · _) module

theorem Separate.global {scope : Scope} (separate : scope.Separate) {entry : Variable}
    (free : scope.moduleNameTaken entry.name = false) :
    Separate { scope with globals := entry :: scope.globals } := by
  intro name (declared : (scope.function? name).isSome)
  have found := congrFun (findVariable?_cons entry scope.globals) name
  by_cases same : name = entry.name
  · rw [same, (free_of_not_taken free).2] at declared
    cases declared
  · rw [Function.update_of_ne same] at found
    exact found.trans (separate name declared)

theorem Separate.function {scope : Scope} (separate : scope.Separate) {name : String}
    (signature : Signature) (free : scope.moduleNameTaken name = false) :
    Separate { scope with functions := (name, signature) :: scope.functions } := by
  intro other declared
  by_cases same : other = name
  · subst same
    exact (free_of_not_taken free).1
  · have differs : (other == name) = false := beq_eq_false_iff_ne.mpr same
    apply separate other
    simpa [function?, List.lookup_cons, differs] using declared

theorem Separate.framed {scope : Scope} (separate : scope.Separate)
    (locals : Option (List Variable)) : Separate { scope with locals } :=
  separate

/-! One operation, on the scope and on its directory. -/

/-- The directory answers as the scope does and follows it. -/
def Follows (scope : Scope) (operation : Operation) : Prop :=
  (scope.perform operation).2.Separate ∧ scope.directory.perform operation =
    ((scope.perform operation).1, (scope.perform operation).2.directory)

theorem declareGlobal_follows {scope : Scope} (separate : scope.Separate) (name : String)
    (type : DataType) (constant : Bool) (place : Location) :
    scope.Follows (.declareGlobal name type constant place) := by
  cases taken : scope.moduleNameTaken name with
  | true =>
      obtain ⟨binding, bound⟩ := bound_of_taken taken
      constructor
      · simpa [perform, declareGlobal, taken, declaring] using separate
      · simp [perform, Directory.perform, declareGlobal, taken, declaring, Directory.bind, bound]
  | false =>
      have free := module_eq_none.mpr taken
      constructor
      · simpa [perform, declareGlobal, taken, declaring] using separate.global taken
      · simp [perform, Directory.perform, declareGlobal, taken, declaring, Directory.bind, free,
          directory_global]

theorem declareFunction_follows {scope : Scope} (separate : scope.Separate) (name : String)
    (signature : Signature) (place : Location) :
    scope.Follows (.declareFunction name signature place) := by
  cases taken : scope.moduleNameTaken name with
  | true =>
      obtain ⟨binding, bound⟩ := bound_of_taken taken
      constructor
      · simpa [perform, declareFunction, taken] using separate
      · simp [perform, Directory.perform, declareFunction, taken, Directory.bind, bound]
  | false =>
      have free := module_eq_none.mpr taken
      constructor
      · simpa [perform, declareFunction, taken] using separate.function signature taken
      · simp [perform, Directory.perform, declareFunction, taken, Directory.bind, free,
          directory_function signature taken]

theorem declareInFunction_follows {scope : Scope} (separate : scope.Separate) (entry : Variable)
    (place : Location) :
    (scope.declaring (scope.declareInFunction entry place)).2.Separate ∧
      scope.directory.bindLocal entry place =
        ((scope.declaring (scope.declareInFunction entry place)).1,
          (scope.declaring (scope.declareInFunction entry place)).2.directory) := by
  cases frame : scope.locals with
  | none =>
      constructor
      · simpa [declareInFunction, frame, declaring] using separate
      · simp [declareInFunction, frame, declaring, Directory.bindLocal, directory]
  | some locals =>
      cases taken : findVariable? entry.name locals with
      | some other =>
          constructor
          · simpa [declareInFunction, frame, taken, declaring] using separate
          · simp [declareInFunction, frame, taken, declaring, Directory.bindLocal, directory]
      | none =>
          constructor
          · simpa [declareInFunction, frame, taken, declaring] using separate.framed _
          · simp [declareInFunction, frame, taken, declaring, Directory.bindLocal, directory,
              findVariable?_cons, function?]

/-- Functions hide no variable of the module. -/
theorem directory_global_eq (scope : Scope) (name : String) (place : Location) :
    scope.directory.global name place =
      match findVariable? name scope.globals with
      | some entry => .ok (.variable entry)
      | none => .error (.undeclaredSymbol name place) := by
  cases global : findVariable? name scope.globals with
  | some entry => simp [Directory.global, directory, global]
  | none =>
      cases declared : scope.function? name with
      | some signature => simp [Directory.global, directory, global, declared]
      | none => simp [Directory.global, directory, global, declared]

theorem lookup_follows {scope : Scope} (separate : scope.Separate) (name : String)
    (place : Location) : scope.Follows (.lookup name place) := by
  refine ⟨separate, ?_⟩
  have frame : scope.directory.locals.bind (fun locals => locals name) =
      scope.locals.bind (findVariable? name) := by
    simp only [directory]
    cases scope.locals <;> rfl
  cases own : scope.locals.bind (findVariable? name) with
  | some entry => simp [Directory.perform, frame, own, perform, lookup, find?, Except.map]
  | none =>
      cases global : findVariable? name scope.globals with
      | some entry | none =>
          simp [Directory.perform, directory_global_eq, frame, own, perform, lookup, find?, global,
            Except.map]

theorem lookupFunction_follows {scope : Scope} (separate : scope.Separate) (name : String)
    (place : Location) : scope.Follows (.lookupFunction name place) := by
  refine ⟨separate, ?_⟩
  cases declared : scope.function? name with
  | some signature =>
      -- No variable of the module can stand in front of the function.
      have unbound := separate name (by rw [declared]; rfl)
      simp [Directory.perform, directory, unbound, declared, perform, lookupFunction, Except.map]
  | none =>
      cases global : findVariable? name scope.globals with
      | some entry | none =>
          simp [Directory.perform, directory, global, declared, perform, lookupFunction, Except.map]

theorem perform_follows {scope : Scope} (separate : scope.Separate) (operation : Operation) :
    scope.Follows operation := by
  cases operation with
  | enter | exit => exact ⟨separate.framed _, rfl⟩
  | declareGlobal name type constant place =>
      exact declareGlobal_follows separate name type constant place
  | declareFunction name signature place =>
      exact declareFunction_follows separate name signature place
  | declareParameter name type place =>
      exact declareInFunction_follows separate ⟨name, type, .parameter⟩ place
  | declareLocal name type place =>
      exact declareInFunction_follows separate ⟨name, type, .localVariable⟩ place
  | lookup name place => exact lookup_follows separate name place
  | lookupFunction name place => exact lookupFunction_follows separate name place

/-! Runs. -/

theorem run_follows {scope : Scope} (separate : scope.Separate) (operations : List Operation) :
    (reached perform scope operations).Separate ∧
      reached Directory.perform scope.directory operations =
        (reached perform scope operations).directory ∧
      answers Directory.perform scope.directory operations =
        answers perform scope operations := by
  induction operations generalizing scope with
  | nil => exact ⟨separate, rfl, rfl⟩
  | cons operation others ih =>
      obtain ⟨still, same⟩ := perform_follows separate operation
      obtain ⟨ends, reaches, answer⟩ := ih still
      refine ⟨ends, ?_, ?_⟩
      · rw [reached_cons, reached_cons, same, reaches]
      · rw [answers, answers, same, answer]

theorem directory_reached (operations : List Operation) :
    (reached perform empty operations).directory =
      reached Directory.perform Directory.empty operations :=
  (run_follows separate_empty operations).2.1.symm

theorem perform_error {scope : Scope} {operation : Operation} {error : ParseError}
    (failed : (scope.perform operation).1 = .error error) : (scope.perform operation).2 = scope := by
  have declaring (result : Except ParseError (Variable × Scope)) {error : ParseError}
      (failed : (scope.declaring result).1 = .error error) : (scope.declaring result).2 = scope := by
    cases result with
    | ok found => cases failed
    | error error => rfl
  cases operation with
  | enter | exit => cases failed
  | lookup | lookupFunction => rfl
  | declareGlobal | declareParameter | declareLocal => exact declaring _ failed
  | declareFunction name signature place =>
      rw [perform] at failed ⊢
      cases done : scope.declareFunction name signature place with
      | ok after => rw [done] at failed; cases failed
      | error error => rfl

end Scope

namespace Directory

theorem bind_keeps {directory : Directory} {name other : String} {binding bound : Binding}
    (is : directory.module name = some bound) (answer : Scope.Answer) (place : Location) :
    (directory.bind other binding answer place).2.module name = some bound := by
  unfold bind
  cases taken : directory.module other with
  | some _ => exact is
  | none =>
      have differs : name ≠ other := by
        rintro rfl
        rw [is] at taken
        cases taken
      exact (Function.update_of_ne differs ..).trans is

theorem bindLocal_keeps (directory : Directory) (entry : Variable) (place : Location) :
    (directory.bindLocal entry place).2.module = directory.module := by
  unfold bindLocal
  split
  · rfl
  · split <;> rfl

theorem perform_keeps {directory : Directory} {name : String} {bound : Binding}
    (is : directory.module name = some bound) (operation : Scope.Operation) :
    (directory.perform operation).2.module name = some bound := by
  cases operation with
  | enter | exit => exact is
  | declareGlobal | declareFunction => exact bind_keeps is _ _
  | declareParameter | declareLocal => exact (congrFun (bindLocal_keeps ..) name).trans is
  | lookup | lookupFunction =>
      rw [perform]
      split <;> exact is

theorem reached_keeps {directory : Directory} {name : String} {bound : Binding}
    (is : directory.module name = some bound) (operations : List Scope.Operation) :
    (Scope.reached perform directory operations).module name = some bound := by
  induction operations generalizing directory with
  | nil => exact is
  | cons operation others ih => exact ih (perform_keeps is operation)

theorem bind_binds {directory : Directory} {name : String} {binding : Binding}
    {answer given : Scope.Answer} {place : Location}
    (done : (directory.bind name binding answer place).1 = .ok given) :
    given = answer ∧ (directory.bind name binding answer place).2.module name = some binding := by
  unfold bind at done ⊢
  split at done
  · cases done
  · cases done
    exact ⟨rfl, Function.update_self ..⟩

end Directory

namespace Scope

def behind (operations : List Operation) : Scope := reached perform empty operations

theorem behind_append (first second : List Operation) :
    behind (first ++ second) = reached perform (behind first) second :=
  reached_append ..

theorem behind_follows (operations : List Operation) (operation : Operation) :
    (behind operations).Follows operation :=
  perform_follows (run_follows separate_empty operations).1 operation

theorem behind_keeps {before : List Operation} {name : String} {bound : Directory.Binding}
    (is : (behind before).directory.module name = some bound) (later : List Operation) :
    (behind (before ++ later)).directory.module name = some bound := by
  rw [behind, directory_reached] at is ⊢
  rw [reached_append]
  exact Directory.reached_keeps is later

theorem behind_binds {before : List Operation} {declaration : Operation} {name : String}
    {binding : Directory.Binding} {answer given : Answer} {place : Location}
    (binds : ∀ directory : Directory,
      directory.perform declaration = directory.bind name binding answer place)
    (done : ((behind before).perform declaration).1 = .ok given) (later : List Operation) :
    given = answer ∧
      (behind (before ++ declaration :: later)).directory.module name = some binding := by
  have same := (behind_follows before declaration).2
  rw [binds] at same
  rw [← congrArg Prod.fst same] at done
  obtain ⟨rfl, bound⟩ := Directory.bind_binds done
  rw [congrArg Prod.snd same] at bound
  refine ⟨rfl, ?_⟩
  have here : behind (before ++ [declaration]) = ((behind before).perform declaration).2 := by
    rw [behind_append, reached_cons, reached_nil]
  rw [← here] at bound
  rw [List.append_cons]
  exact behind_keeps bound later

/-- Where a function begins or ends only the names of the module are known. -/
theorem lookup_at_edge (before : List Operation) {edge : Operation}
    (isEdge : edge = .enter ∨ edge = .exit) (name : String) (place : Location) :
    ((behind (before ++ [edge])).perform (.lookup name place)).1 =
      (behind before).directory.global name place := by
  have same := congrArg Prod.fst (behind_follows (before ++ [edge]) (.lookup name place)).2
  rw [← same, behind_append]
  rcases isEdge with rfl | rfl
  · rfl
  · rfl

/-- The scope answers every run of operations as one map of module names and one of the open
function do, also where a function is entered while another is open. -/
theorem run_answers_as_directory :
    (∀ operations, answers perform empty operations =
      answers Directory.perform Directory.empty operations) ∧
    (∀ before failed later error, ((behind before).perform failed).1 = .error error →
      answers perform (behind (before ++ [failed])) later =
        answers perform (behind before) later) ∧
    (∀ before later name bound, (behind before).directory.module name = some bound →
      (behind (before ++ later)).directory.module name = some bound) ∧
    -- What is declared for the module inside a function outlives the function.
    (∀ before later name type constant place elsewhere entry,
      ((behind before).perform (.declareGlobal name type constant place)).1 =
        .ok (.variable entry) →
      ((behind (before ++ .declareGlobal name type constant place :: later ++ [.exit])).perform
        (.lookup name elsewhere)).1 = .ok (.variable entry)) ∧
    (∀ before later name signature place elsewhere,
      ((behind before).perform (.declareFunction name signature place)).1 = .ok .done →
      ((behind (before ++ .declareFunction name signature place :: later)).perform
        (.lookupFunction name elsewhere)).1 = .ok (.function signature)) ∧
    (∀ before edge name place, edge = .enter ∨ edge = .exit →
      ((behind (before ++ [edge])).perform (.lookup name place)).1 =
        (behind before).directory.global name place) := by
  refine ⟨?_, ?_, ?_, ?_, ?_, ?_⟩
  · intro operations
    exact (run_follows separate_empty operations).2.2.symm
  · intro before failed later error failure
    rw [behind_append, reached_cons, reached_nil, perform_error failure]
  · intro before later name bound is
    exact behind_keeps is later
  · intro before later name type constant place elsewhere entry done
    obtain ⟨same, bound⟩ := behind_binds (fun _ => rfl) done later
    rw [lookup_at_edge _ (.inr rfl), Directory.global, bound, same]
  · intro before later name signature place elsewhere done
    obtain ⟨_, bound⟩ := behind_binds (fun _ => rfl) done later
    have same := (behind_follows (before ++ .declareFunction name signature place :: later)
      (.lookupFunction name elsewhere)).2
    rw [← congrArg Prod.fst same, Directory.perform, bound]
  · intro before edge name place isEdge
    exact lookup_at_edge before isEdge name place

end Scope

end ScalarC
