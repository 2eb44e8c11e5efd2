import ScalarC.Proofs.Twins.Basic

/-!
Scopes of twin runs: a scope and the same one under other names. Lookups and
declarations of identifiers that stand for each other agree, because renaming
merges no names.
-/

namespace ScalarC

open Parse

namespace Twins

variable {twins : Twins}

def Declared (twins : Twins) (found given : Variable × Scope) : Prop :=
  given.2 = found.2.renamed twins.rename

section Names

variable {first second : Token} (names : twins.Identifiers first second) (scope : Scope)
include names

theorem lookup_agree :
    twins.Agree (fun entry other => other = entry.renamed twins.rename)
      (scope.lookup first.text first.location)
      ((scope.renamed twins.rename).lookup second.text second.location) := by
  unfold Scope.lookup
  rw [names.text, Scope.find?_renamed twins.injective]
  cases scope.find? first.text with
  | some entry => exact .ok rfl
  | none =>
      rw [Option.map_none, ← names.text]
      exact .error (.undeclaredSymbol names)

theorem lookupFunction_agree :
    twins.Agree Eq (scope.lookupFunction first.text first.location)
      ((scope.renamed twins.rename).lookupFunction second.text second.location) := by
  unfold Scope.lookupFunction
  rw [names.text, Scope.function?_renamed twins.injective]
  cases scope.function? first.text with
  | some signature => exact .ok rfl
  | none =>
      rw [← names.text]
      exact .error (.undeclaredSymbol names)

theorem declareGlobal_agree (type : DataType) (constant : Bool) :
    twins.Agree twins.Declared
      (scope.declareGlobal first.text type constant first.location)
      ((scope.renamed twins.rename).declareGlobal second.text type constant second.location) := by
  unfold Scope.declareGlobal
  refine .ite ?_ (fun _ => .error (.duplicateSymbol names)) fun _ => .ok ?_
  · rw [names.text, Scope.moduleNameTaken_renamed twins.injective]
  · rw [names.text]
    rfl

theorem declareFunction_agree (signature : Signature) :
    twins.Agree (fun after other => other = after.renamed twins.rename)
      (scope.declareFunction first.text signature first.location)
      ((scope.renamed twins.rename).declareFunction second.text signature second.location) := by
  unfold Scope.declareFunction
  refine .ite ?_ (fun _ => .error (.duplicateSymbol names)) fun _ => .ok ?_
  · rw [names.text, Scope.moduleNameTaken_renamed twins.injective]
  · rw [names.text]
    rfl

theorem declareInFunction_agree (type : DataType) (storage : Storage) :
    twins.Agree twins.Declared
      (scope.declareInFunction ⟨first.text, type, storage⟩ first.location)
      ((scope.renamed twins.rename).declareInFunction ⟨second.text, type, storage⟩
        second.location) := by
  have frame : (scope.renamed twins.rename).locals =
      scope.locals.map (List.map (Variable.renamed twins.rename)) := rfl
  unfold Scope.declareInFunction
  rw [frame]
  cases scope.locals with
  | none =>
      rw [names.text]
      exact .error (.malformed (.variableOutsideFunction first.text) (places names.pair))
  | some locals =>
      refine .ite ?_ (fun _ => .error (.duplicateSymbol names)) fun _ => .ok ?_
      · rw [names.text, Scope.findVariable?_renamed twins.injective, Option.isSome_map]
      · rw [names.text]
        rfl

end Names

theorem declare_alike {declaration other : Scope → Except ParseError (Variable × Scope)}
    (agree : ∀ scope, twins.Agree twins.Declared (declaration scope)
      (other (scope.renamed twins.rename))) :
    twins.Alike Eq (declare declaration) (declare other) := by
  apply scope_alike.bind
  rintro scope _ rfl
  apply (Alike.ofExcept (agree scope)).bind
  intro found given declared
  exact setScope_alike declared

end Twins

end ScalarC
