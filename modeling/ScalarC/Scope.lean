import ScalarC.ParseError

/-!
Names in scope, on two levels. Variables and functions of the module share one
space of names. Inside a function, parameters and local variables have a space
of their own, which hides module variables of the same name; calls look only at
the functions of the module. A declaration that fails changes nothing.
-/

namespace ScalarC

inductive Storage where
  | globalVariable
  | globalConstant
  | parameter
  | localVariable
  deriving DecidableEq

def Storage.isLocal : Storage → Bool
  | parameter | localVariable => true
  | globalVariable | globalConstant => false

structure Variable where
  name : String
  type : DataType
  storage : Storage
  deriving DecidableEq

/-- What a call has to know of a function; a `void` function has no return type. -/
structure Signature where
  returnType : Option DataType
  parameters : List DataType
  deriving DecidableEq

structure Scope where
  globals : List Variable
  functions : List (String × Signature)
  locals : Option (List Variable)
  deriving DecidableEq

namespace Scope

def empty : Scope := ⟨[], [], none⟩

def findVariable? (name : String) (entries : List Variable) : Option Variable :=
  entries.find? fun declared => declared.name = name

def function? (scope : Scope) (name : String) : Option Signature :=
  scope.functions.lookup name

def moduleNameTaken (scope : Scope) (name : String) : Bool :=
  (findVariable? name scope.globals).isSome || (scope.function? name).isSome

def declareGlobal (scope : Scope) (name : String) (type : DataType) (constant : Bool)
    (place : Location) : Except ParseError (Variable × Scope) :=
  if scope.moduleNameTaken name then .error (.duplicateSymbol name place)
  else
    let global : Variable :=
      ⟨name, type, if constant then .globalConstant else .globalVariable⟩
    .ok (global, { scope with globals := global :: scope.globals })

def declareFunction (scope : Scope) (name : String) (signature : Signature)
    (place : Location) : Except ParseError Scope :=
  if scope.moduleNameTaken name then .error (.duplicateSymbol name place)
  else .ok { scope with functions := (name, signature) :: scope.functions }

def enterFunction (scope : Scope) : Scope := { scope with locals := some [] }

def exitFunction (scope : Scope) : Scope := { scope with locals := none }

def declareInFunction (scope : Scope) (declared : Variable) (place : Location) :
    Except ParseError (Variable × Scope) :=
  match scope.locals with
  | none => .error (.malformed (.variableOutsideFunction declared.name) place)
  | some locals =>
      if (findVariable? declared.name locals).isSome then
        .error (.duplicateSymbol declared.name place)
      else .ok (declared, { scope with locals := some (declared :: locals) })

def declareParameter (scope : Scope) (name : String) (type : DataType) (place : Location) :
    Except ParseError (Variable × Scope) :=
  scope.declareInFunction ⟨name, type, .parameter⟩ place

def declareLocal (scope : Scope) (name : String) (type : DataType) (place : Location) :
    Except ParseError (Variable × Scope) :=
  scope.declareInFunction ⟨name, type, .localVariable⟩ place

/-- The variable a name means: the function's own before the module's. -/
def find? (scope : Scope) (name : String) : Option Variable :=
  (scope.locals.bind (findVariable? name)).or (findVariable? name scope.globals)

def lookup (scope : Scope) (name : String) (place : Location) : Except ParseError Variable :=
  match scope.find? name with
  | some found => .ok found
  | none => .error (.undeclaredSymbol name place)

def lookupFunction (scope : Scope) (name : String) (place : Location) :
    Except ParseError Signature :=
  match scope.function? name with
  | some signature => .ok signature
  | none => .error (.undeclaredSymbol name place)

end Scope

end ScalarC
