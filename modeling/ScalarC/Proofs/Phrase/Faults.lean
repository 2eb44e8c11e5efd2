import ScalarC.Proofs.Outcome
import ScalarC.Proofs.Phrase.Grammar

/-!
Which errors a phrase of the grammar can end in: those of its names and types,
and those of number tokens that spell no value. The errors allowed are a
parameter, so a caller says in one place which causes it answers for.
-/

namespace ScalarC

/-- An error of a program that keeps to the grammar. -/
def ParseError.IsSemantic (error : ParseError) : Prop :=
  ∀ fault place, error ≠ .malformed fault place

/-- An error of an expression that keeps to the grammar. -/
inductive ParseError.IsTyping : ParseError → Prop where
  | undeclared {name : String} {place : Location} : IsTyping (.undeclaredSymbol name place)
  | constant {name : String} {place : Location} : IsTyping (.constAssignment name place)
  | mismatch {fault : TypeFault} {place : Location} : IsTyping (.typeMismatch fault place)

theorem ParseError.IsTyping.allowed {allowed : ParseError → Prop}
    (semantic : ∀ error, error.IsSemantic → allowed error) :
    ∀ error, error.IsTyping → allowed error := by
  rintro _ (_ | _ | _) <;> exact semantic _ nofun

/-- A good value or an allowed error. -/
def Admissible {α : Type} (allowed : ParseError → Prop) (good : α → Prop) :
    Except ParseError α → Prop
  | .ok value => good value
  | .error error => allowed error

namespace Admissible

variable {α β : Type} {allowed : ParseError → Prop} {good : α → Prop} {better : β → Prop}

theorem bind {result : Except ParseError α} {next : α → Except ParseError β}
    (first : Admissible allowed good result)
    (further : ∀ value, good value → Admissible allowed better (next value)) :
    Admissible allowed better (result >>= next) := by
  cases result with
  | ok value => exact further value first
  | error error => exact first

theorem mono {result : Except ParseError α} {weaker : α → Prop}
    (admissible : Admissible allowed good result) (implies : ∀ value, good value → weaker value) :
    Admissible allowed weaker result := by
  cases result with
  | ok value => exact implies value admissible
  | error error => exact admissible

theorem error {result : Except ParseError α} (admissible : Admissible allowed good result)
    {raised : ParseError} (failed : result = .error raised) : allowed raised := by
  subst failed
  exact admissible

theorem tested {choice : Prop} [Decidable choice] {value : α} {error : ParseError}
    (passed : choice → good value) (failed : allowed error) :
    Admissible allowed good (if choice then .ok value else .error error) := by
  split
  · rename_i holds
    exact passed holds
  · exact failed

end Admissible

/-- A spelling that has a value, or whose error is allowed. -/
def Literal.Tolerated (allowed : ParseError → Prop) (text : String) : Prop :=
  isFractional text = true → Decimal.read? text.toList = none →
    ∀ place, allowed (.malformed (.malformedNumber text) place)

def Pending.Tolerated (allowed : ParseError → Prop) : Pending → Prop
  | .literal written => Literal.Tolerated allowed written.text
  | .neg inner => inner.Tolerated allowed
  | .binary _ left right _ => left.Tolerated allowed ∧ right.Tolerated allowed

def Operand.Tolerated (allowed : ParseError → Prop) : Operand → Prop
  | .typed _ => True
  | .pending expression => expression.Tolerated allowed

section Declarations

variable {allowed : ParseError → Prop} (semantic : ∀ error, error.IsSemantic → allowed error)
include semantic

theorem DataType.declared_admissible (word : String) (place : Location) :
    Admissible allowed (fun _ => True) (declared word place) := by
  unfold declared
  split
  · trivial
  · exact semantic _ nofun

theorem Scope.declareGlobal_admissible (scope : Scope) (name : String) (type : DataType)
    (constant : Bool) (place : Location) :
    Admissible allowed
      (fun found => found.2 = { scope with
        globals :=
          ⟨name, type, if constant then .globalConstant else .globalVariable⟩ :: scope.globals })
      (scope.declareGlobal name type constant place) := by
  by_cases taken : scope.moduleNameTaken name = true
  · rw [declareGlobal, if_pos taken]
    exact semantic _ nofun
  · rw [declareGlobal, if_neg taken]
    rfl

theorem Scope.declareFunction_admissible (scope : Scope) (name : String) (signature : Signature)
    (place : Location) :
    Admissible allowed
      (fun after => after = { scope with functions := (name, signature) :: scope.functions })
      (scope.declareFunction name signature place) := by
  unfold declareFunction
  split
  · exact semantic _ nofun
  · rfl

end Declarations

section Meanings

variable {allowed : ParseError → Prop} (typing : ∀ error, error.IsTyping → allowed error)
include typing

theorem Literal.node_admissible {literal : Literal} (tolerated : Tolerated allowed literal.text)
    (type : DataType) : Admissible allowed (fun _ => True) (literal.node type) := by
  have finite (value : Binary64) :
      Admissible allowed (fun _ => True) (literal.finite type value) :=
    .tested (fun _ => .intro) (typing _ .mismatch)
  have value : Admissible allowed (fun _ => True) (literal.value type) := by
    unfold Literal.value
    split
    · rename_i fractional
      unfold fractionalValue
      split
      · exact typing _ .mismatch
      split
      · rename_i unread
        exact tolerated fractional unread _
      · exact finite _
    · unfold integerValue
      dsimp only
      split
      · exact typing _ .mismatch
      split
      · exact .tested (fun _ => .intro) (typing _ .mismatch)
      · exact finite _
  exact value.bind fun _ _ => .intro

theorem Arithmetic.node_admissible (operator : Arithmetic) (type : DataType) (left right : Node)
    (place : Location) :
    Admissible allowed (fun _ => True) (operator.node type left right place) := by
  unfold Arithmetic.node
  split
  · exact typing _ .mismatch
  · trivial

theorem Pending.build_admissible {expression : Pending} (tolerated : expression.Tolerated allowed)
    (type : DataType) : Admissible allowed (fun _ => True) (expression.build type) := by
  induction expression with
  | literal written => exact Literal.node_admissible typing tolerated type
  | neg inner ih => exact (ih tolerated).bind fun _ _ => .intro
  | binary operator left right place first second =>
      refine (first tolerated.1).bind fun _ _ => ?_
      refine (second tolerated.2).bind fun _ _ => ?_
      exact Arithmetic.node_admissible typing ..

theorem DataType.require_admissible (expected : DataType) (found : Option DataType)
    (context : String) (place : Location) :
    Admissible allowed (fun _ => True) (expected.require found context place) :=
  .tested (fun _ => .intro) (typing _ .mismatch)

theorem Node.valueType_admissible (node : Node) (operator : String) (place : Location) :
    Admissible allowed (fun _ => True) (node.valueType operator place) := by
  unfold Node.valueType
  split
  · trivial
  · exact typing _ .mismatch

theorem Scope.lookup_admissible (scope : Scope) (name : String) (place : Location) :
    Admissible allowed (fun _ => True) (scope.lookup name place) := by
  unfold Scope.lookup
  split
  · trivial
  · exact typing _ .undeclared

theorem Scope.lookupFunction_admissible (scope : Scope) (name : String) (place : Location) :
    Admissible allowed (fun _ => True) (scope.lookupFunction name place) := by
  unfold Scope.lookupFunction
  split
  · trivial
  · exact typing _ .undeclared

namespace Operand

theorem freeze_admissible {operand : Operand} (tolerated : operand.Tolerated allowed)
    (type : DataType) : Admissible allowed (fun _ => True) (operand.freeze type) := by
  cases operand with
  | typed => trivial
  | pending => exact Pending.build_admissible typing tolerated type

theorem settle_admissible {operand : Operand} (tolerated : operand.Tolerated allowed)
    (expected : DataType) (context : String) (place : Location) :
    Admissible allowed (fun _ => True) (operand.settle expected context place) := by
  refine (freeze_admissible typing tolerated expected).bind fun _ _ => ?_
  exact (DataType.require_admissible typing ..).bind fun _ _ => .intro

theorem unify_admissible {left right : Operand} (first : left.Tolerated allowed)
    (second : right.Tolerated allowed) (operator : String) (place : Location) :
    Admissible allowed (fun _ => True) (unify operator place left right) := by
  have valueType (node : Node) := Node.valueType_admissible typing node operator place
  have build {expression : Pending} (tolerated : expression.Tolerated allowed) :=
    Pending.build_admissible typing tolerated
  cases left with
  | typed =>
      cases right with
      | typed =>
          refine (valueType _).bind fun _ _ => (valueType _).bind fun _ _ => ?_
          exact .tested (fun _ => .intro) (typing _ .mismatch)
      | pending => exact (valueType _).bind fun _ _ => (build second _).bind fun _ _ => .intro
  | pending =>
      cases right with
      | typed => exact (valueType _).bind fun _ _ => (build first _).bind fun _ _ => .intro
      | pending => exact (build first _).bind fun _ _ => (build second _).bind fun _ _ => .intro

theorem arithmetic_admissible {left right : Operand} (first : left.Tolerated allowed)
    (second : right.Tolerated allowed) (operator : Arithmetic) (place : Location) :
    Admissible allowed (Tolerated allowed) (arithmetic operator place left right) := by
  unfold arithmetic
  split
  · exact ⟨first, second⟩
  · refine (unify_admissible typing first second _ place).bind fun _ _ => ?_
    exact (Arithmetic.node_admissible typing ..).bind fun _ _ => .intro

theorem truthValue_admissible {operand : Operand} (tolerated : operand.Tolerated allowed)
    (operator : String) (place : Location) :
    Admissible allowed (fun _ => True) (operand.truthValue operator place) := by
  refine (freeze_admissible typing tolerated _).bind fun _ _ => ?_
  exact (DataType.require_admissible typing ..).bind fun _ _ => .intro

theorem complement_admissible {operand : Operand} (tolerated : operand.Tolerated allowed)
    (place : Location) : Admissible allowed (Tolerated allowed) (operand.complement place) :=
  (truthValue_admissible typing tolerated _ place).bind fun _ _ => .intro

theorem binary_admissible {left right : Operand} (first : left.Tolerated allowed)
    (second : right.Tolerated allowed) (operator : BinaryOperator) (place : Location) :
    Admissible allowed (Tolerated allowed) (left.binary operator place right) := by
  cases operator with
  | connective =>
      refine (truthValue_admissible typing first _ place).bind fun _ _ => ?_
      exact (truthValue_admissible typing second _ place).bind fun _ _ => .intro
  | comparison => exact (unify_admissible typing first second _ place).bind fun _ _ => .intro
  | arithmetic => exact arithmetic_admissible typing first second ..

theorem negate_admissible {operand : Operand} (tolerated : operand.Tolerated allowed)
    (place : Location) : Admissible allowed (Tolerated allowed) (operand.negate place) := by
  unfold negate
  split
  · exact tolerated
  · exact tolerated
  · exact (Node.valueType_admissible typing ..).bind fun _ _ => .intro

theorem convert_admissible (target : DataType) (place : Location) (node : Node) :
    Admissible allowed (Tolerated allowed) (convert target place node) := by
  refine (Node.valueType_admissible typing ..).bind fun _ _ => ?_
  split <;> trivial

theorem cast_admissible {operand : Operand} (tolerated : operand.Tolerated allowed)
    (target : DataType) (place : Location) :
    Admissible allowed (Tolerated allowed) (operand.cast target place) := by
  have convert (node : Node) := convert_admissible typing target place node
  unfold cast
  split
  · have literal := Literal.node_admissible typing tolerated
    split
    · exact (literal _).bind fun _ _ => .intro
    · exact (literal _).bind fun _ _ => convert _
  · exact (Pending.build_admissible typing tolerated _).bind fun _ _ => convert _
  · exact convert _

theorem stored_admissible {operand : Operand} (tolerated : operand.Tolerated allowed)
    (form : Assignment) (target : Variable) (place start : Location) :
    Admissible allowed (fun _ => True) (form.stored target place start operand) := by
  cases form with
  | plain => exact settle_admissible typing tolerated ..
  | compound =>
      have own : Tolerated allowed (.typed target.get) := .intro
      refine (arithmetic_admissible typing own tolerated ..).bind fun _ combined => ?_
      exact settle_admissible typing combined ..

end Operand

namespace Phrase

theorem arguments_admissible {scope : Scope} {name : String} {given : List Phrase}
    (each : ∀ phrase ∈ given,
      Admissible allowed (Operand.Tolerated allowed) (phrase.operand scope))
    (position : Nat) (types : List DataType) :
    Admissible allowed (fun _ => True) (arguments scope name position given types) := by
  induction given generalizing position types with
  | nil => trivial
  | cons phrase given ih =>
      obtain ⟨first, others⟩ := List.forall_mem_cons.mp each
      cases types with
      | nil => exact typing _ .mismatch
      | cons type types =>
          rw [arguments]
          refine first.bind fun _ tolerated => ?_
          refine (Operand.settle_admissible typing tolerated ..).bind fun _ _ => ?_
          exact (ih others (position + 1) types).bind fun _ _ => .intro

theorem call_admissible {scope : Scope} {name closing : Token} {given : List Phrase}
    (each : ∀ phrase ∈ given,
      Admissible allowed (Operand.Tolerated allowed) (phrase.operand scope)) :
    Admissible allowed (Operand.Tolerated allowed)
      ((Phrase.call name given closing).operand scope) := by
  rw [operand]
  refine (Scope.lookupFunction_admissible typing ..).bind fun _ _ => ?_
  refine (arguments_admissible typing each ..).bind fun _ _ => ?_
  split
  · exact typing _ .mismatch
  · trivial

/-- The phrases of a derivation err only where its number tokens do, or by what their names and
types are. -/
theorem Derives.admissible {symbol : Symbol} {tokens : List Token} {phrases : List Phrase}
    (derives : Derives symbol tokens phrases)
    (numbers : ∀ token ∈ tokens, token.kind = .number → Literal.Tolerated allowed token.text)
    (scope : Scope) :
    ∀ phrase ∈ phrases, Admissible allowed (Operand.Tolerated allowed) (phrase.operand scope) := by
  induction derives with
  | operators _ ih | tighter _ ih | prefixed _ ih | plain _ ih | last _ ih => exact ih numbers
  | number kind => exact List.forall_mem_singleton.mpr (numbers _ (by simp) kind)
  | reference =>
      refine List.forall_mem_singleton.mpr ?_
      exact (Scope.lookup_admissible typing ..).bind fun _ _ => .intro
  | group _ _ _ ih =>
      have inner := ih fun token member => numbers token (by simp [member])
      rw [List.forall_mem_singleton] at inner ⊢
      rwa [operand]
  | negation _ _ ih =>
      have inner := ih fun token member => numbers token (by simp [member])
      rw [List.forall_mem_singleton] at inner ⊢
      exact inner.bind fun _ tolerated => Operand.negate_admissible typing tolerated _
  | complement _ _ ih =>
      have inner := ih fun token member => numbers token (by simp [member])
      rw [List.forall_mem_singleton] at inner ⊢
      exact inner.bind fun _ tolerated => Operand.complement_admissible typing tolerated _
  | cast _ _ _ _ ih =>
      have inner := ih fun token member => numbers token (by simp [member])
      rw [List.forall_mem_singleton] at inner ⊢
      exact inner.bind fun _ tolerated => Operand.cast_admissible typing tolerated ..
  | joined _ _ _ _ left right =>
      have left := left fun token member => numbers token (by simp [member])
      have right := right fun token member => numbers token (by simp [member])
      rw [List.forall_mem_singleton] at left right ⊢
      refine left.bind fun _ first => right.bind fun _ second => ?_
      exact Operand.binary_admissible typing first second ..
  | assignment _ _ _ ih =>
      have value := ih fun token member => numbers token (by simp [member])
      rw [List.forall_mem_singleton] at value ⊢
      refine (Scope.lookup_admissible typing ..).bind fun _ _ => ?_
      split
      · exact typing _ .constant
      refine value.bind fun _ tolerated => ?_
      exact (Operand.stored_admissible typing tolerated ..).bind fun _ _ => .intro
  | emptyCall => exact List.forall_mem_singleton.mpr (call_admissible typing nofun)
  | call _ _ _ _ ih =>
      refine List.forall_mem_singleton.mpr (call_admissible typing (ih ?_))
      exact fun token member => numbers token (by simp [member])
  | further _ _ _ first others =>
      refine List.forall_mem_cons.mpr ⟨first ?_ _ (by simp), others ?_⟩
      all_goals exact fun token member => numbers token (by simp [member])

theorem Derives.settled_admissible {tokens : List Token} {phrase : Phrase}
    (derives : Derives .expression tokens [phrase])
    (numbers : ∀ token ∈ tokens, token.kind = .number → Literal.Tolerated allowed token.text)
    (scope : Scope) (expected : DataType) (context : String) :
    Admissible allowed (fun _ => True) (phrase.settled scope expected context) := by
  have operand := derives.admissible typing numbers scope phrase (by simp)
  exact operand.bind fun _ tolerated => Operand.settle_admissible typing tolerated ..

end Phrase

end Meanings

end ScalarC
