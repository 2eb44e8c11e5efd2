import ScalarC.Proofs.Command.Ambiguity
import ScalarC.Proofs.Phrase.Faults

/-!
What commands do, the errors included. An effect is put together like the
command it belongs to, and keeps those tokens of it that its errors name. Inside
a function an effect declares local variables at most, and errs by names and
types alone, unless a number has no value or a jump stands outside of all loops.
-/

namespace ScalarC

/-- A scope behind commands of a function, which declare nothing in the module. -/
structure Scope.Continues (before after : Scope) : Prop where
  framed : after.locals.isSome = true
  globals : after.globals = before.globals
  functions : after.functions = before.functions

theorem Scope.Continues.refl {scope : Scope} (framed : scope.locals.isSome = true) :
    scope.Continues scope :=
  ⟨framed, rfl, rfl⟩

theorem Scope.Continues.trans {before middle after : Scope} (first : before.Continues middle)
    (second : middle.Continues after) : before.Continues after :=
  ⟨second.framed, second.globals.trans first.globals, second.functions.trans first.functions⟩

namespace Command

/-- A result in a function, under so many loops and in a scope, with the scope behind it. -/
abbrev Effect (α : Type) := Enclosing → Nat → Scope → Except ParseError (α × Scope)

namespace Effect

def nothing : Effect (List Node) := fun _ _ scope => .ok ([], scope)

def further (first : Effect Node) (others : Effect (List Node)) : Effect (List Node) :=
  fun function depth scope => do
    let one ← first function depth scope
    let more ← others function depth one.2
    return (one.1 :: more.1, more.2)

def declared (type : DataType) (name : Token) : Effect Node := fun _ _ scope => do
  let entry ← scope.declareLocal name.text type name.location
  return (⟨.localVar, some (.name name.text), some type, []⟩, entry.2)

def initialized (type : DataType) (name : Token) (value : Phrase) : Effect Node :=
  fun _ _ scope => do
    let node ← value.settled scope type "initializer"
    let entry ← scope.declareLocal name.text type name.location
    return (⟨.localVar, some (.name name.text), some type, [node]⟩, entry.2)

def returned (word : Token) : Effect Node := fun function _ scope =>
  match function.returnType with
  | some type =>
      .error (.typeMismatch (.missingReturnValue function.name type) word.location)
  | none => .ok (⟨.returned, some (.name function.name), none, []⟩, scope)

def returnedValue (value : Phrase) : Effect Node := fun function _ scope =>
  match function.returnType with
  | some type => do
      let node ← value.settled scope type "return value"
      return (⟨.returned, some (.name function.name), some type, [node]⟩, scope)
  | none => .error (.typeMismatch (.returnValueFromVoid function.name) value.start.location)

def embodied (command : Command) (effect : Effect Node) : Effect Node :=
  fun function depth scope => do
    let single ← effect function depth scope
    return (command.body single.1, single.2)

def branch (test : Phrase) (chosen : Effect Node) : Effect Node :=
  fun function depth scope => do
    let condition ← test.settled scope .i32 "condition"
    let first ← chosen function depth scope
    return (⟨.branch, none, none, [condition, first.1]⟩, first.2)

def branchElse (test : Phrase) (chosen alternative : Effect Node) : Effect Node :=
  fun function depth scope => do
    let condition ← test.settled scope .i32 "condition"
    let first ← chosen function depth scope
    let second ← alternative function depth first.2
    return (⟨.branch, none, none, [condition, first.1, second.1]⟩, second.2)

def whileLoop (test : Phrase) (repeated : Effect Node) : Effect Node :=
  fun function depth scope => do
    let condition ← test.settled scope .i32 "condition"
    let round ← repeated function (depth + 1) scope
    return (⟨.whileLoop, none, none, [condition, round.1]⟩, round.2)

def doLoop (repeated : Effect Node) (test : Phrase) : Effect Node :=
  fun function depth scope => do
    let round ← repeated function (depth + 1) scope
    let condition ← test.settled round.2 .i32 "condition"
    return (⟨.doLoop, none, none, [round.1, condition]⟩, round.2)

def jump (tag : Tag) (word : Token) : Effect Node := fun _ depth scope =>
  if depth = 0 then .error (.malformed (.jumpOutsideLoop word.text) word.location)
  else .ok (⟨tag, none, none, []⟩, scope)

def block (commands : Effect (List Node)) : Effect Node := fun function depth scope => do
  let inner ← commands function depth scope
  return (⟨.block, none, none, inner.1⟩, inner.2)

def expression (phrase : Phrase) : Effect Node := fun _ _ scope => do
  let operand ← phrase.operand scope
  let node ← operand.freeze .literalDefault
  return (node.asStatement, scope)

/-! Which errors an effect can end in. -/

/-- Effects that leave the module alone and err only as allowed, where jumps by the words
given are under no loop. -/
def Admits {α : Type} (allowed : ParseError → Prop) (jumps : String → Prop)
    (effect : Effect α) : Prop :=
  ∀ function depth scope, scope.locals.isSome = true →
    (depth = 0 → ∀ word, jumps word → ∀ place, allowed (.malformed (.jumpOutsideLoop word) place)) →
    Admissible allowed (fun found => scope.Continues found.2) (effect function depth scope)

variable {allowed : ParseError → Prop}

theorem nothing_admits : nothing.Admits allowed (StraysAmong · []) := by
  intro function depth scope framed _
  exact .refl framed

theorem further_admits {command : Command} {commands : List Command} {first : Effect Node}
    {others : Effect (List Node)} (firstAdmits : first.Admits allowed (Strays · command))
    (othersAdmit : others.Admits allowed (StraysAmong · commands)) :
    (further first others).Admits allowed (StraysAmong · (command :: commands)) := by
  intro function depth scope framed jumps
  refine (firstAdmits _ _ _ framed fun outside word stray => ?_).bind fun found goes => ?_
  · exact jumps outside word (straysAmong_cons.mpr (.inl stray))
  refine (othersAdmit _ _ _ goes.framed fun outside word among => ?_).bind fun _ rest => ?_
  · exact jumps outside word (straysAmong_cons.mpr (.inr among))
  exact goes.trans rest

theorem embodied_admits {command : Command} {effect : Effect Node} {jumps : String → Prop}
    (admits : effect.Admits allowed jumps) : (embodied command effect).Admits allowed jumps := by
  intro function depth scope framed inside
  exact (admits _ _ _ framed inside).bind fun _ goes => goes

theorem jump_admits {tag : Tag} {word : Token} {command : Command}
    (stray : Strays word.text command) : (jump tag word).Admits allowed (Strays · command) := by
  intro function depth scope framed jumps
  unfold jump
  split
  · rename_i outside
    exact jumps outside _ stray _
  · exact .refl framed

theorem block_admits {commands : List Command} {effect : Effect (List Node)}
    (admits : effect.Admits allowed (StraysAmong · commands)) :
    (block effect).Admits allowed (Strays · (.block commands)) := by
  intro function depth scope framed jumps
  refine (admits _ _ _ framed fun outside word among => ?_).bind fun _ goes => goes
  exact jumps outside word (strays_block.mpr among)

section Phrases

variable (semantic : ∀ error, error.IsSemantic → allowed error)
include semantic

theorem declareInFunction_admissible {scope : Scope} (framed : scope.locals.isSome = true)
    (declared : Variable) (place : Location) :
    Admissible allowed (fun found => scope.Continues found.2)
      (scope.declareInFunction declared place) := by
  have duplicate : (ParseError.duplicateSymbol declared.name place).IsSemantic := nofun
  obtain ⟨locals, frame⟩ := Option.isSome_iff_exists.mp framed
  simp only [Scope.declareInFunction, frame]
  split
  · exact semantic _ duplicate
  · exact ⟨rfl, rfl, rfl⟩

theorem declared_admits (type : DataType) (name : Token) {jumps : String → Prop} :
    (declared type name).Admits allowed jumps := by
  intro function depth scope framed _
  exact (declareInFunction_admissible semantic framed ..).bind fun _ goes => goes

theorem returned_admits (word : Token) {jumps : String → Prop} :
    (returned word).Admits allowed jumps := by
  intro function depth scope framed _
  unfold returned
  split
  · exact semantic _ nofun
  · exact .refl framed

variable {tokens : List Token} {phrase : Phrase} {jumps : String → Prop}
  (derives : Phrase.Derives .expression tokens [phrase])
  (numbers : ∀ token ∈ tokens, token.kind = .number → Literal.Tolerated allowed token.text)
include derives numbers

theorem initialized_admits (type : DataType) (name : Token) :
    (initialized type name phrase).Admits allowed jumps := by
  intro function depth scope framed _
  have typing := ParseError.IsTyping.allowed semantic
  refine (derives.settled_admissible typing numbers ..).bind fun _ _ => ?_
  exact (declareInFunction_admissible semantic framed ..).bind fun _ goes => goes

theorem returnedValue_admits : (returnedValue phrase).Admits allowed jumps := by
  intro function depth scope framed _
  have typing := ParseError.IsTyping.allowed semantic
  unfold returnedValue
  split
  · refine (derives.settled_admissible typing numbers ..).bind fun _ _ => ?_
    exact .refl framed
  · exact semantic _ nofun

theorem expression_admits : (expression phrase).Admits allowed jumps := by
  intro function depth scope framed _
  have typing := ParseError.IsTyping.allowed semantic
  refine (derives.admissible typing numbers scope phrase (by simp)).bind fun _ tolerated => ?_
  refine (Operand.freeze_admissible typing tolerated _).bind fun _ _ => ?_
  exact .refl framed

end Phrases

section Tests

variable (semantic : ∀ error, error.IsSemantic → allowed error) {tests : List Token}
  {test : Phrase} (isTest : Condition tests test)
  (numbers : ∀ token ∈ tests, token.kind = .number → Literal.Tolerated allowed token.text)
include semantic isTest numbers

theorem condition_admissible (scope : Scope) (context : String) :
    Admissible allowed (fun _ => True) (test.settled scope .i32 context) := by
  cases isTest with
  | intro _ _ derives =>
      exact derives.settled_admissible (ParseError.IsTyping.allowed semantic)
        (fun token member => numbers token (by simp [member])) ..

theorem branch_admits {chosen : Command} {effect : Effect Node}
    (admits : effect.Admits allowed (Strays · chosen)) :
    (branch test effect).Admits allowed (Strays · (.branch test chosen)) := by
  intro function depth scope framed jumps
  refine (condition_admissible semantic isTest numbers ..).bind fun _ _ => ?_
  refine (admits _ _ _ framed fun outside word stray => ?_).bind fun _ goes => goes
  exact jumps outside word (.branch stray)

theorem branchElse_admits {chosen alternative : Command} {first second : Effect Node}
    (firstAdmits : first.Admits allowed (Strays · chosen))
    (secondAdmits : second.Admits allowed (Strays · alternative)) :
    (branchElse test first second).Admits allowed
      (Strays · (.branchElse test chosen alternative)) := by
  intro function depth scope framed jumps
  refine (condition_admissible semantic isTest numbers ..).bind fun _ _ => ?_
  refine (firstAdmits _ _ _ framed fun outside word stray => ?_).bind fun _ goes => ?_
  · exact jumps outside word (.chosen stray)
  refine (secondAdmits _ _ _ goes.framed fun outside word stray => ?_).bind fun _ rest => ?_
  · exact jumps outside word (.alternative stray)
  exact goes.trans rest

theorem whileLoop_admits {effect : Effect Node} {within jumps : String → Prop}
    (admits : effect.Admits allowed within) : (whileLoop test effect).Admits allowed jumps := by
  intro function depth scope framed _
  refine (condition_admissible semantic isTest numbers ..).bind fun _ _ => ?_
  have inLoop := admits function (depth + 1) scope framed (absurd · depth.succ_ne_zero)
  exact inLoop.bind fun _ goes => goes

theorem doLoop_admits {effect : Effect Node} {within jumps : String → Prop}
    (admits : effect.Admits allowed within) : (doLoop effect test).Admits allowed jumps := by
  intro function depth scope framed _
  have inLoop := admits function (depth + 1) scope framed (absurd · depth.succ_ne_zero)
  refine inLoop.bind fun _ goes => ?_
  exact (condition_admissible semantic isTest numbers ..).bind fun _ _ => goes

end Tests

end Effect

end Command

end ScalarC
