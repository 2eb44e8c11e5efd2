import ScalarC.Proofs.Outcome

/-!
What each operation on scopes does when it succeeds.
-/

namespace ScalarC.Scope

theorem declareInFunction_eq_ok {scope after : Scope} {declared entry : Variable}
    {place : Location} :
    scope.declareInFunction declared place = .ok (entry, after) ↔
      ∃ locals, scope.locals = some locals ∧ findVariable? declared.name locals = none ∧
        entry = declared ∧ after = { scope with locals := some (declared :: locals) } := by
  cases frame : scope.locals with
  | none => simp [declareInFunction, frame]
  | some locals =>
      cases taken : findVariable? declared.name locals with
      | none => simp [declareInFunction, frame, taken, eq_comm]
      | some other => simp [declareInFunction, frame, taken]

theorem declareGlobal_eq_ok {scope after : Scope} {name : String} {type : DataType}
    {constant : Bool} {entry : Variable} {place : Location} :
    scope.declareGlobal name type constant place = .ok (entry, after) ↔
      scope.moduleNameTaken name = false ∧
        entry = ⟨name, type, if constant then .globalConstant else .globalVariable⟩ ∧
        after = { scope with globals := entry :: scope.globals } := by
  cases taken : scope.moduleNameTaken name with
  | true => simp [declareGlobal, taken]
  | false =>
      simp only [declareGlobal, taken, Bool.false_eq_true, ↓reduceIte, Except.ok.injEq,
        Prod.mk.injEq, true_and]
      constructor
      · rintro ⟨rfl, rfl⟩
        exact ⟨rfl, rfl⟩
      · rintro ⟨rfl, rfl⟩
        exact ⟨rfl, rfl⟩

theorem declareFunction_eq_ok {scope after : Scope} {name : String} {signature : Signature}
    {place : Location} :
    scope.declareFunction name signature place = .ok after ↔
      scope.moduleNameTaken name = false ∧
        after = { scope with functions := (name, signature) :: scope.functions } := by
  cases taken : scope.moduleNameTaken name <;> simp [declareFunction, taken, eq_comm]

theorem moduleNameTaken_global (scope : Scope) (entry : Variable) (name : String) :
    { scope with globals := entry :: scope.globals }.moduleNameTaken name =
      (entry.name = name || scope.moduleNameTaken name) := by
  by_cases same : entry.name = name <;>
    simp [moduleNameTaken, findVariable?, function?, same]

theorem moduleNameTaken_function (scope : Scope) (declared : String) (signature : Signature)
    (name : String) :
    { scope with functions := (declared, signature) :: scope.functions }.moduleNameTaken name =
      (declared = name || scope.moduleNameTaken name) := by
  by_cases same : declared = name
  · simp [moduleNameTaken, function?, same]
  · have other : (name == declared) = false := beq_eq_false_iff_ne.mpr (Ne.symm same)
    simp [moduleNameTaken, function?, List.lookup_cons, other, same]

theorem mem_of_findVariable? {name : String} {entries : List Variable} {found : Variable}
    (is : findVariable? name entries = some found) : found ∈ entries ∧ found.name = name :=
  ⟨List.mem_of_find?_eq_some is, by simpa using List.find?_some is⟩

theorem findVariable?_eq_none {name : String} {entries : List Variable} :
    findVariable? name entries = none ↔ ∀ entry ∈ entries, entry.name ≠ name := by
  simp [findVariable?]

theorem find?_eq_some {scope : Scope} {name : String} {found : Variable} :
    scope.find? name = some found ↔
      (∃ locals, scope.locals = some locals ∧ findVariable? name locals = some found) ∨
        (∀ locals, scope.locals = some locals → findVariable? name locals = none) ∧
          findVariable? name scope.globals = some found := by
  cases frame : scope.locals with
  | none => simp [find?, frame]
  | some locals => cases own : findVariable? name locals <;> simp [find?, frame, own]

theorem name_of_find? {scope : Scope} {name : String} {found : Variable}
    (is : scope.find? name = some found) : found.name = name := by
  rcases find?_eq_some.mp is with ⟨locals, _, own⟩ | ⟨_, global⟩
  · exact (mem_of_findVariable? own).2
  · exact (mem_of_findVariable? global).2

end ScalarC.Scope
