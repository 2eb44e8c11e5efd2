import ScalarC.Parsing.Program
import ScalarC.Proofs.Cursor.Steps

/-!
All parsers of the language are put together from steps. Expressions take the
fewest of them, statements declare local variables, run bodies of loops and refuse
stray jumps as well, and what the module does is left to its declarations. A
parser that is given the parser of what is inside it is taken with that parser
made, and the knot is tied by induction on the bound.
-/

namespace ScalarC.Parse

open ParseError

variable {made : (α : Type) → Parse α → Prop}

/-- Steps that statements are put together from besides. -/
structure BodySteps (made : (α : Type) → Parse α → Prop) : Prop extends Steps made where
  stray (word : Token) :
    made Node (Parse.raise (.malformed (.jumpOutsideLoop word.text) word.location))
  declareLocal (name : String) (type : DataType) (place : Location) :
    made Unit (Parse.declare fun scope => scope.declareLocal name type place)
  inLoop {statement : Parse Node} :
    made Node (Statement.body statement) → made Node (Parse.inLoop (Statement.body statement))

namespace Steps

variable (steps : Steps made)
include steps

theorem declaredType : made _ ScalarC.declaredType := by
  apply steps.bind steps.peek
  intro token
  apply steps.bind steps.seesIdentifierAhead
  intro beforeName
  apply ite_made
  · exact steps.bind steps.advance fun word =>
      steps.ofExcept (DataType.declared_admissible IsSemantic.not_isStray _ _)
  · exact steps.fail nofun

/-! Expressions. -/

theorem variableNamed : made _ Expression.variableNamed := by
  apply steps.bind steps.advance
  intro name
  apply steps.bind steps.scope
  intro scope
  exact steps.ofExcept (Scope.lookup_admissible IsTyping.not_isStray scope _ _)

theorem number : made _ Expression.number :=
  steps.bind steps.advance fun _ => steps.pure _

theorem seesCast : made _ Expression.seesCast := by
  apply steps.bind (steps.sees _)
  intro opened
  apply steps.bind (steps.peekAhead 1)
  intro word?
  exact steps.bind (steps.seesAhead 2 _) fun closed => steps.pure _

theorem assignment? : made _ Expression.assignment? := by
  apply steps.bind steps.peek
  intro name
  apply steps.bind (steps.peekAhead 1)
  intro mark?
  exact ite_made (steps.pure _) (steps.pure _)

section Inner

variable {operand : Parse Operand} (inner : made _ operand)
include inner

theorem typed (expected : DataType) (context : String) :
    made _ (Expression.typed operand expected context) := by
  apply steps.bind steps.peek
  intro start
  apply steps.bind inner
  intro found
  have freezes := Operand.freeze_admissible IsTyping.not_isStray found.not_isStray expected
  apply steps.bind (steps.ofExcept freezes)
  intro node
  apply steps.bind (steps.ofExcept (DataType.require_admissible IsTyping.not_isStray expected ..))
  exact fun _ => steps.pure node

theorem arguments (name : String) (position : Nat) (types : List DataType) :
    made _ (Expression.arguments operand name position types) := by
  induction types generalizing position with
  | nil => exact steps.bind steps.peek fun token => steps.raise nofun
  | cons type types ih =>
      apply steps.bind (steps.typed inner type _)
      intro argument
      apply steps.bind (steps.accept _)
      intro more
      apply ite_made
      · exact steps.bind (ih (position + 1)) fun others => steps.pure _
      · exact steps.pure _

theorem argumentList (name : String) (types : List DataType) :
    made _ (Expression.argumentList operand name types) := by
  apply steps.bind (steps.sees _)
  intro closed
  exact ite_made (steps.pure _) (steps.arguments inner name 0 types)

theorem call : made _ (Expression.call operand) := by
  apply steps.bind steps.advance
  intro name
  apply steps.bind steps.advance
  intro opening
  apply steps.bind steps.scope
  intro scope
  apply steps.bind (steps.ofExcept (Scope.lookupFunction_admissible IsTyping.not_isStray scope _ _))
  intro signature
  apply steps.bind (steps.argumentList inner name.text signature.parameters)
  intro given
  apply steps.bind steps.peek
  intro next
  apply ite_made
  · exact steps.raise nofun
  · exact steps.bind (steps.expectPunctuation _ _) fun _ => steps.pure _

theorem grouped : made _ (Expression.grouped operand) := by
  apply steps.bind steps.advance
  intro opening
  apply steps.bind inner
  intro found
  exact steps.bind (steps.expectPunctuation _ _) fun _ => steps.pure found

theorem primary : made _ (Expression.primary operand) := by
  apply steps.bind steps.peek
  intro token
  cases token.kind with
  | number => exact steps.number
  | identifier =>
      apply steps.bind (steps.seesAhead 1 _)
      intro called
      apply ite_made (steps.call inner)
      exact steps.bind steps.variableNamed fun source => steps.pure _
  | keyword | operator | punctuation | endOfInput =>
      exact ite_made (steps.grouped inner) (steps.fail nofun)

theorem unary (bound : Nat) : made _ (Expression.unary operand bound) := by
  induction bound with
  | zero => exact steps.primary inner
  | succ bound ih =>
      apply steps.bind steps.peek
      intro token
      apply steps.bind steps.seesCast
      intro casts
      apply ite_made
      · exact steps.bind steps.advance fun _ => steps.bind ih fun found =>
          steps.ofExcept (Operand.negate_admissible IsTyping.not_isStray found.not_isStray _)
      apply ite_made
      · exact steps.bind steps.advance fun _ => steps.bind ih fun found =>
          steps.ofExcept (Operand.complement_admissible IsTyping.not_isStray found.not_isStray _)
      apply ite_made
      · apply steps.bind steps.advance
        intro opening
        apply steps.bind steps.declaredType
        intro target
        apply steps.bind (steps.expectPunctuation _ _)
        intro _
        exact steps.bind ih fun found =>
          steps.ofExcept (Operand.cast_admissible IsTyping.not_isStray found.not_isStray target _)
      · exact steps.primary inner

theorem chain (level : List BinaryOperator) (bound : Nat) (left : Operand) :
    made _ (Expression.chain level operand bound left) := by
  induction bound generalizing left with
  | zero => exact steps.pure left
  | succ bound ih =>
      apply steps.bind steps.peek
      intro token
      cases BinaryOperator.ofLexeme? level token.toLexeme with
      | none => exact steps.pure left
      | some operator =>
          apply steps.bind steps.advance
          intro mark
          apply steps.bind inner
          intro right
          have joins := Operand.binary_admissible IsTyping.not_isStray left.not_isStray
            right.not_isStray operator
          exact steps.bind (steps.ofExcept (joins _)) fun joined => ih joined

theorem levels (table : List (List BinaryOperator)) : made _ (Expression.levels operand table) := by
  induction table with
  | nil => exact steps.bind steps.unreadCount fun bound => steps.unary inner bound
  | cons level tighter ih =>
      apply steps.bind ih
      intro left
      exact steps.bind steps.unreadCount fun bound => steps.chain ih level bound left

theorem storedValue (form : Assignment) (target : Variable) (place : Location) :
    made _ (Expression.storedValue operand form target place) := by
  cases form with
  | plain => exact steps.typed inner target.type _
  | compound operator =>
      apply steps.bind steps.peek
      intro start
      apply steps.bind inner
      intro right
      have own : Operand.Tolerated (¬ ·.IsStray) (.typed target.get) := .intro
      have combines :=
        Operand.arithmetic_admissible IsTyping.not_isStray own right.not_isStray operator
      apply steps.bind (steps.ofExcept (combines _))
      intro combined
      have freezes := Operand.freeze_admissible IsTyping.not_isStray combined.not_isStray
      apply steps.bind (steps.ofExcept (freezes _))
      intro value
      have requires := DataType.require_admissible IsTyping.not_isStray target.type
      apply steps.bind (steps.ofExcept (requires ..))
      exact fun _ => steps.pure value

theorem assignment (form : Assignment) : made _ (Expression.assignment operand form) := by
  apply steps.bind steps.advance
  intro name
  apply steps.bind steps.advance
  intro mark
  apply steps.bind steps.scope
  intro scope
  apply steps.bind (steps.ofExcept (Scope.lookup_admissible IsTyping.not_isStray scope _ _))
  intro target
  apply ite_made
  · exact steps.raise nofun
  · exact steps.bind (steps.storedValue inner form target mark.location) fun value => steps.pure _

end Inner

theorem operandWithin (bound : Nat) : made _ (Expression.operandWithin bound) := by
  induction bound with
  | zero => exact steps.bind steps.peek fun token => steps.fail nofun
  | succ bound ih =>
      apply steps.bind steps.assignment?
      intro form?
      cases form? with
      | some form => exact steps.assignment ih form
      | none => exact steps.levels ih BinaryOperator.levels

theorem operand : made _ Expression.operand :=
  steps.bind steps.unreadCount steps.operandWithin

theorem ofType (expected : DataType) (context : String) :
    made _ (Expression.ofType expected context) :=
  steps.typed steps.operand expected context

/-! Parts of statements. -/

theorem condition (before after : String) : made _ (Statement.condition before after) := by
  apply steps.bind (steps.expectPunctuation _ _)
  intro _
  apply steps.bind (steps.ofType .i32 _)
  intro test
  exact steps.bind (steps.expectPunctuation _ _) fun _ => steps.pure test

theorem returnValue (function : Enclosing) (place : Location) :
    made _ (Statement.returnValue function place) := by
  apply steps.bind steps.peek
  intro next
  apply steps.bind (steps.sees _)
  intro ends
  cases function.returnType with
  | none =>
      cases ends with
      | true => exact steps.pure _
      | false => exact steps.raise nofun
  | some type =>
      cases ends with
      | true => exact steps.raise nofun
      | false => exact steps.bind (steps.ofType type _) fun value => steps.pure _

theorem returns (place : Location) : made _ (Statement.returns place) := by
  apply steps.bind steps.enclosing
  intro function?
  cases function? with
  | none => exact steps.raise nofun
  | some function =>
      apply steps.bind (steps.returnValue function place)
      intro value
      exact steps.bind (steps.expectPunctuation _ _) fun _ => steps.pure _

theorem expression : made _ Statement.expression := by
  apply steps.bind steps.operand
  intro operand
  have freezes := Operand.freeze_admissible IsTyping.not_isStray operand.not_isStray
  apply steps.bind (steps.ofExcept (freezes _))
  intro node
  apply steps.bind (steps.expectPunctuation _ _)
  intro _
  exact ite_made (steps.pure _) (steps.pure _)

theorem localDeclaration
    (declares : ∀ name type place,
      made Unit (Parse.declare fun scope => scope.declareLocal name type place)) :
    made _ Statement.localDeclaration := by
  apply steps.bind steps.declaredType
  intro type
  apply steps.bind steps.expectIdentifier
  intro name
  apply steps.bind (steps.sees _)
  intro isFunction
  apply ite_made
  · exact steps.fail nofun
  apply steps.bind (steps.accept _)
  intro initialized
  apply steps.bind (steps.onlyIf initialized (steps.ofType type _))
  intro value
  apply steps.bind (steps.expectPunctuation _ _)
  intro _
  exact steps.bind (declares _ _ _) fun _ => steps.pure _

section Inner

variable {statement : Parse Node} (inner : made _ statement)
include inner

theorem sequence (bound : Nat) : made _ (Statement.sequence statement bound) := by
  induction bound with
  | zero => exact steps.pure _
  | succ bound ih =>
      apply steps.bind steps.peek
      intro token
      apply steps.bind steps.unreadCount
      intro left
      apply ite_made (steps.pure _)
      apply steps.bind inner
      intro first
      exact steps.bind ih fun others => steps.pure _

theorem braced (context : String) : made _ (Statement.braced statement context) := by
  apply steps.bind steps.unreadCount
  intro bound
  apply steps.bind (steps.sequence inner bound)
  intro statements
  exact steps.bind (steps.expectPunctuation _ _) fun _ => steps.pure _

theorem block : made _ (Statement.block statement) :=
  steps.bind (steps.braced inner _) fun _ => steps.pure _

theorem body : made _ (Statement.body statement) := by
  apply steps.bind (steps.accept _)
  intro opened
  exact ite_made (steps.block inner) (steps.bind inner fun single => steps.pure _)

theorem branches : made _ (Statement.branches statement) := by
  apply steps.bind (steps.condition _ _)
  intro test
  apply steps.bind (steps.body inner)
  intro chosen
  apply steps.bind (steps.accept _)
  intro hasAlternative
  exact steps.bind (steps.onlyIf hasAlternative (steps.body inner)) fun alternative => steps.pure _

end Inner

end Steps

namespace BodySteps

variable (steps : BodySteps made)
include steps

/-! Statements. -/

theorem jump (tag : Tag) (word : Token) : made _ (Statement.jump tag word) := by
  apply steps.bind steps.loopDepth
  intro depth
  apply ite_made (steps.stray word)
  exact steps.bind (steps.expectPunctuation _ _) fun _ => steps.pure _

section Inner

variable {statement : Parse Node} (inner : made _ statement)
include inner

theorem repeatsWhile : made _ (Statement.repeatsWhile statement) := by
  apply steps.bind (steps.condition _ _)
  intro test
  exact steps.bind (steps.inLoop (steps.body inner)) fun repeated => steps.pure _

theorem repeatsDo : made _ (Statement.repeatsDo statement) := by
  apply steps.bind (steps.inLoop (steps.body inner))
  intro repeated
  apply steps.bind (steps.expect _ _)
  intro _
  apply steps.bind (steps.condition _ _)
  intro test
  exact steps.bind (steps.expectPunctuation _ _) fun _ => steps.pure _

theorem opened (word : StatementWord) : made _ (Statement.opened statement word) := by
  cases word with
  | alternative | repeatsFor => exact steps.fail nofun
  | returns => exact steps.bind steps.advance fun token => steps.returns token.location
  | branches => exact steps.bind steps.advance fun token => steps.branches inner
  | repeatsWhile => exact steps.bind steps.advance fun token => steps.repeatsWhile inner
  | repeatsDo => exact steps.bind steps.advance fun token => steps.repeatsDo inner
  | breaks | continues => exact steps.bind steps.advance fun token => steps.jump _ token

theorem keyword (text : String) : made _ (Statement.keyword statement text) := by
  unfold Statement.keyword
  cases StatementWord.ofText? text with
  | some word => exact steps.opened inner word
  | none => exact ite_made (steps.fail nofun) (steps.localDeclaration steps.declareLocal)

theorem plain : made _ (Statement.plain statement) := by
  apply steps.bind (steps.accept _)
  intro isBlock
  apply ite_made (steps.block inner)
  apply steps.bind steps.peek
  intro token
  apply steps.bind steps.seesIdentifierAhead
  intro named
  exact ite_made (steps.localDeclaration steps.declareLocal) steps.expression

end Inner

theorem statementWithin (bound : Nat) : made _ (Statement.statementWithin bound) := by
  induction bound with
  | zero => exact steps.bind steps.peek fun token => steps.fail nofun
  | succ bound ih =>
      apply steps.bind steps.peek
      intro token
      exact ite_made (steps.keyword ih token.text) (steps.plain ih)

theorem statement : made _ Statement.statement :=
  steps.bind steps.unreadCount steps.statementWithin

end BodySteps

namespace Steps

variable (steps : Steps made)
include steps

/-! Declarations, where the steps that declare are given. -/

theorem initializer (type : DataType) : made _ (Declaration.initializer type) := by
  apply steps.bind (steps.accept _)
  intro negative
  apply steps.bind steps.peek
  intro token
  apply ite_made
  · exact steps.bind steps.advance fun _ =>
      steps.ofExcept (Literal.node_admissible IsTyping.not_isStray nofun type)
  · exact steps.fail nofun

theorem globalValue (name : Token) (type : DataType) (constant : Bool) :
    made _ (Declaration.globalValue name type constant) := by
  apply steps.bind (steps.accept _)
  intro initialized
  exact ite_made (steps.raise nofun) (steps.onlyIf initialized (steps.initializer type))

theorem global
    (declares : ∀ name type constant place,
      made Unit (Parse.declare fun scope => scope.declareGlobal name type constant place)) :
    made _ Declaration.global := by
  apply steps.bind (steps.accept _)
  intro constant
  apply steps.bind steps.declaredType
  intro type
  apply steps.bind steps.expectIdentifier
  intro name
  apply steps.bind (steps.sees _)
  intro isFunction
  apply ite_made
  · exact steps.fail nofun
  apply steps.bind (declares name.text type constant name.location)
  intro _
  apply steps.bind (steps.globalValue name type constant)
  intro value
  exact steps.bind (steps.expectPunctuation _ _) fun _ => steps.pure _

section Parameters

variable (declares : ∀ name type place,
  made Unit (Parse.declare fun scope => scope.declareParameter name type place))
include declares

theorem parameterList (bound : Nat) : made _ (Declaration.parameterList bound) := by
  induction bound with
  | zero => exact steps.bind steps.peek fun token => steps.fail nofun
  | succ bound ih =>
      apply steps.bind steps.declaredType
      intro type
      apply steps.bind steps.expectIdentifier
      intro name
      apply steps.bind (declares name.text type name.location)
      intro _
      apply steps.bind (steps.accept _)
      intro more
      exact ite_made (steps.bind ih fun others => steps.pure _) (steps.pure _)

theorem parameters : made _ Declaration.parameters := by
  apply steps.bind (steps.sees _)
  intro closed
  apply steps.bind (steps.sees _)
  intro isVoid
  apply steps.bind (steps.seesAhead 1 _)
  intro closesNext
  apply ite_made (steps.pure _)
  apply ite_made
  · exact steps.bind steps.advance fun word => steps.pure _
  · exact steps.bind steps.unreadCount (steps.parameterList declares)

end Parameters

theorem returnType : made _ Declaration.returnType := by
  apply steps.bind (steps.accept _)
  intro isVoid
  exact ite_made (steps.pure _) (steps.bind steps.declaredType fun type => steps.pure _)

theorem declaration (globals : made _ Declaration.global)
    (functions : made _ Declaration.function) : made _ Declaration.declaration := by
  apply steps.bind steps.peek
  intro token
  apply steps.bind (steps.seesAhead 2 _)
  intro isFunction
  apply ite_made
  · exact steps.fail nofun
  apply ite_made globals
  exact ite_made functions globals

/-! Programs. -/

section Inner

variable (inner : made _ Declaration.declaration)
include inner

theorem declarations (bound : Nat) : made _ (Program.declarations bound) := by
  induction bound with
  | zero => exact steps.pure _
  | succ bound ih =>
      apply steps.bind steps.unreadCount
      intro left
      apply ite_made (steps.pure _)
      apply steps.bind inner
      intro first
      exact steps.bind ih fun others => steps.pure _

theorem module : made _ Program.module :=
  steps.bind steps.unreadCount fun bound =>
    steps.bind (steps.declarations inner bound) fun _ => steps.pure _

end Inner

end Steps

namespace Built

theorem steps : BodySteps @Built where
  toSteps := closed
  stray _ := .raise _
  declareLocal _ _ _ := .declare _
  inLoop := .inLoop

theorem global : Built Declaration.global :=
  steps.global fun _ _ _ _ => .declare _

theorem parameterList (bound : Nat) : Built (Declaration.parameterList bound) :=
  steps.parameterList (fun _ _ _ => .declare _) bound

theorem parameters : Built Declaration.parameters :=
  steps.parameters fun _ _ _ => .declare _

theorem declareFunction (name : Token) (signature : Signature) :
    Built (Declaration.declareFunction name signature) := by
  apply steps.bind steps.scope
  intro scope
  exact steps.bind (.ofExcept _) fun declared => .setScope _

theorem enterFunction : Built Declaration.enterFunction :=
  steps.bind steps.scope fun _ => .setScope _

theorem exitFunction : Built Declaration.exitFunction :=
  steps.bind steps.scope fun _ => .setScope _

theorem functionBody (enclosing : Enclosing) : Built (Declaration.functionBody enclosing) := by
  apply steps.bind (.setEnclosing _)
  intro _
  apply steps.bind (steps.expectPunctuation _ _)
  intro _
  apply steps.bind (steps.braced steps.statement _)
  intro statements
  exact steps.bind (.setEnclosing _) fun _ => steps.pure _

theorem function : Built Declaration.function := by
  apply steps.bind steps.returnType
  intro type
  apply steps.bind steps.expectIdentifier
  intro name
  apply steps.bind (steps.expectPunctuation _ _)
  intro _
  apply steps.bind enterFunction
  intro _
  apply steps.bind parameters
  intro given
  apply steps.bind (steps.expectPunctuation _ _)
  intro _
  apply steps.bind (declareFunction name _)
  intro _
  apply steps.bind (functionBody _)
  intro statements
  exact steps.bind exitFunction fun _ => steps.pure _

theorem declaration : Built Declaration.declaration :=
  steps.declaration global function

theorem declarations (bound : Nat) : Built (Program.declarations bound) :=
  steps.declarations declaration bound

theorem module : Built Program.module :=
  steps.module declaration

end Built

end ScalarC.Parse
