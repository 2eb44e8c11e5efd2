import ScalarC.Operand
import ScalarC.Parsing.State

/-!
Renaming: what takes the place of tokens, trees, scopes and causes of errors
where every identifier gets another name. Only identifiers are renamed, so a
lexeme that the grammar knows by its text is never taken for another.
-/

namespace ScalarC

section

variable (rename : String → String)

def Lexeme.renamed (lexeme : Lexeme) : Lexeme :=
  if lexeme.kind = .identifier then { lexeme with text := rename lexeme.text } else lexeme

def Token.renamed (token : Token) : Token := ⟨token.toLexeme.renamed rename, token.location⟩

def NodeValue.renamed : NodeValue → NodeValue
  | .name text => .name (rename text)
  | value => value

mutual

def Node.renamed : Node → Node
  | ⟨tag, value, type, children⟩ =>
      ⟨tag, value.map (NodeValue.renamed rename), type, Node.allRenamed children⟩

def Node.allRenamed : List Node → List Node
  | [] => []
  | node :: rest => Node.renamed node :: Node.allRenamed rest

end

def Variable.renamed (entry : Variable) : Variable := { entry with name := rename entry.name }

def Scope.renamed (scope : Scope) : Scope where
  globals := scope.globals.map (Variable.renamed rename)
  functions := scope.functions.map (Prod.map rename id)
  locals := scope.locals.map (List.map (Variable.renamed rename))

def Enclosing.renamed (function : Enclosing) : Enclosing :=
  { function with name := rename function.name }

def GrammarFault.renamed : GrammarFault → GrammarFault
  | .missingMark mark context found => .missingMark mark context (found.renamed rename)
  | .missingIdentifier found => .missingIdentifier (found.renamed rename)
  | .missingType found => .missingType (found.renamed rename)
  | .missingExpression found => .missingExpression (found.renamed rename)
  | .missingLiteral found => .missingLiteral (found.renamed rename)
  | .statementOutsideFunction found => .statementOutsideFunction (found.renamed rename)
  | .variableOutsideFunction name => .variableOutsideFunction (rename name)
  | .constFunction name => .constFunction (rename name)
  | .constWithoutValue name => .constWithoutValue (rename name)
  | fault => fault

def TypeFault.renamed : TypeFault → TypeFault
  | .missingReturnValue name type => .missingReturnValue (rename name) type
  | .returnValueFromVoid name => .returnValueFromVoid (rename name)
  | .tooManyArguments name expected => .tooManyArguments (rename name) expected
  | .tooFewArguments name expected found => .tooFewArguments (rename name) expected found
  | fault => fault

def argumentContext (position : Nat) (name : String) : String :=
  "argument " ++ (position + 1).repr ++ " of '" ++ name ++ "'"

/-- Contexts of an expected type, which may name a function. -/
inductive ContextRenames : String → String → Prop where
  | same (context : String) : ContextRenames context context
  | argument (position : Nat) (name : String) :
      ContextRenames (argumentContext position name) (argumentContext position (rename name))

/-- The fault that is found instead, with a renamed function in it or in its context. -/
inductive TypeFault.Renames : TypeFault → TypeFault → Prop where
  | renamed (fault : TypeFault) : Renames fault (fault.renamed rename)
  | unexpectedType {context other : String} (expected : DataType) (found : Option DataType) :
      ContextRenames rename context other →
      Renames (.unexpectedType context expected found) (.unexpectedType other expected found)

end

variable {rename : String → String}

/-! Lexemes. -/

namespace Lexeme

@[simp] theorem renamed_kind (lexeme : Lexeme) : (lexeme.renamed rename).kind = lexeme.kind := by
  unfold renamed
  split <;> rfl

theorem renamed_of_other {lexeme : Lexeme} (other : lexeme.kind ≠ .identifier) :
    lexeme.renamed rename = lexeme :=
  if_neg other

theorem renamed_text {lexeme : Lexeme} (named : lexeme.kind = .identifier) :
    (lexeme.renamed rename).text = rename lexeme.text := by
  rw [renamed, if_pos named]

theorem renamed_eq_iff {lexeme mark : Lexeme} (other : mark.kind ≠ .identifier) :
    lexeme.renamed rename = mark ↔ lexeme = mark := by
  by_cases named : lexeme.kind = .identifier
  · constructor
    · intro same
      rw [← same, renamed_kind] at other
      exact absurd named other
    · rintro rfl
      exact absurd named other
  · rw [renamed_of_other named]

@[simp] theorem renamed_isStatementWord (lexeme : Lexeme) :
    (lexeme.renamed rename).isStatementWord = lexeme.isStatementWord := by
  by_cases named : lexeme.kind = .identifier
  · simp [isStatementWord, named]
  · rw [renamed_of_other named]

@[simp] theorem renamed_isTypeWord (lexeme : Lexeme) :
    (lexeme.renamed rename).isTypeWord = lexeme.isTypeWord := by
  by_cases named : lexeme.kind = .identifier
  · simp [isTypeWord, named]
  · rw [renamed_of_other named]

@[simp] theorem renamed_inTypePosition (lexeme : Lexeme) (beforeName : Bool) :
    (lexeme.renamed rename).inTypePosition beforeName = lexeme.inTypePosition beforeName := by
  simp [inTypePosition]

end Lexeme

@[simp] theorem BinaryOperator.ofLexeme?_renamed (level : List BinaryOperator) (lexeme : Lexeme) :
    ofLexeme? level (lexeme.renamed rename) = ofLexeme? level lexeme := by
  have same (operator : BinaryOperator) : (lexeme.renamed rename = .operator operator.symbol) =
      (lexeme = .operator operator.symbol) :=
    propext (Lexeme.renamed_eq_iff (by simp))
  simp only [ofLexeme?, same]

@[simp] theorem Assignment.ofLexeme?_renamed (lexeme : Lexeme) :
    ofLexeme? (lexeme.renamed rename) = ofLexeme? lexeme := by
  by_cases named : lexeme.kind = .identifier
  · simp [ofLexeme?, named]
  · rw [Lexeme.renamed_of_other named]

/-! Trees. -/

namespace Node

theorem allRenamed_eq_map (nodes : List Node) :
    allRenamed rename nodes = nodes.map (renamed rename) := by
  induction nodes with
  | nil => rfl
  | cons node nodes ih => rw [allRenamed, ih, List.map_cons]

@[simp] theorem renamed_mk (tag : Tag) (value : Option NodeValue) (type : Option DataType)
    (children : List Node) :
    renamed rename ⟨tag, value, type, children⟩ =
      ⟨tag, value.map (NodeValue.renamed rename), type, children.map (renamed rename)⟩ := by
  rw [renamed, allRenamed_eq_map]

@[simp] theorem renamed_type (node : Node) : (node.renamed rename).type = node.type := by
  cases node
  rw [renamed]

@[simp] theorem renamed_tag (node : Node) : (node.renamed rename).tag = node.tag := by
  cases node
  rw [renamed]

mutual

theorem renamed_id : ∀ node : Node, node.renamed id = node
  | ⟨tag, value, type, children⟩ => by
      have same : value.map (NodeValue.renamed id) = value := by
        cases value with
        | none => rfl
        | some value => cases value <;> rfl
      rw [renamed, same, allRenamed_id children]

theorem allRenamed_id : ∀ nodes : List Node, allRenamed id nodes = nodes
  | [] => rfl
  | node :: rest => by rw [allRenamed, renamed_id node, allRenamed_id rest]

end

end Node

@[simp] theorem NodeValue.renamed_name (text : String) :
    NodeValue.renamed rename (.name text) = .name (rename text) := rfl

/-! Causes of errors that nothing is renamed in. -/

theorem Lexeme.renamed_id (lexeme : Lexeme) : lexeme.renamed id = lexeme := by
  unfold renamed
  split <;> rfl

theorem GrammarFault.renamed_id (fault : GrammarFault) : fault.renamed id = fault := by
  cases fault <;> simp [renamed, Lexeme.renamed_id]

theorem TypeFault.renamed_id (fault : TypeFault) : fault.renamed id = fault := by
  cases fault <;> rfl

theorem ContextRenames.of_id {context other : String} (renames : ContextRenames id context other) :
    other = context := by
  cases renames with
  | same => rfl
  | argument => rfl

theorem TypeFault.Renames.of_id {fault other : TypeFault} (renames : fault.Renames id other) :
    other = fault := by
  cases renames with
  | renamed => exact fault.renamed_id
  | unexpectedType expected found contexts => rw [contexts.of_id]

/-! Scopes. -/

@[simp] theorem Variable.renamed_type (entry : Variable) :
    (entry.renamed rename).type = entry.type := rfl

@[simp] theorem Variable.renamed_storage (entry : Variable) :
    (entry.renamed rename).storage = entry.storage := rfl

theorem Variable.renamed_get (entry : Variable) :
    (entry.renamed rename).get = entry.get.renamed rename := by
  rw [get, get, Node.renamed_mk]
  rfl

theorem Variable.renamed_set (entry : Variable) (value : Node) :
    (entry.renamed rename).set (value.renamed rename) = (entry.set value).renamed rename := by
  rw [set, set, Node.renamed_mk]
  rfl

namespace Scope

theorem renamed_enterFunction (scope : Scope) :
    (scope.renamed rename).enterFunction = scope.enterFunction.renamed rename := rfl

theorem renamed_exitFunction (scope : Scope) :
    (scope.renamed rename).exitFunction = scope.exitFunction.renamed rename := rfl

section Injective

variable (injective : Function.Injective rename)
include injective

theorem findVariable?_renamed (name : String) (entries : List Variable) :
    findVariable? (rename name) (entries.map (Variable.renamed rename)) =
      (findVariable? name entries).map (Variable.renamed rename) := by
  induction entries with
  | nil => rfl
  | cons entry entries ih =>
      have same : (rename entry.name = rename name) = (entry.name = name) :=
        propext injective.eq_iff
      by_cases found : entry.name = name
      · simp [findVariable?, Variable.renamed, found]
      · simpa [findVariable?, Variable.renamed, same, found] using ih

theorem function?_renamed (scope : Scope) (name : String) :
    (scope.renamed rename).function? (rename name) = scope.function? name := by
  unfold function? renamed
  induction scope.functions with
  | nil => rfl
  | cons entry functions ih =>
      obtain ⟨declared, signature⟩ := entry
      by_cases found : name = declared
      · simp [found]
      · have other : (name == declared) = false := beq_eq_false_iff_ne.mpr found
        have differs : (rename name == rename declared) = false :=
          beq_eq_false_iff_ne.mpr (injective.ne found)
        simpa [List.lookup_cons, other, differs] using ih

theorem moduleNameTaken_renamed (scope : Scope) (name : String) :
    (scope.renamed rename).moduleNameTaken (rename name) = scope.moduleNameTaken name := by
  rw [moduleNameTaken, function?_renamed injective, renamed, findVariable?_renamed injective,
    Option.isSome_map]
  rfl

theorem find?_renamed (scope : Scope) (name : String) :
    (scope.renamed rename).find? (rename name) =
      (scope.find? name).map (Variable.renamed rename) := by
  have global := findVariable?_renamed injective name scope.globals
  cases frame : scope.locals with
  | none => simp [find?, renamed, frame, global]
  | some locals =>
      have own := findVariable?_renamed injective name locals
      cases found : findVariable? name locals with
      | none => simp_all [find?, renamed]
      | some entry => simp_all [find?, renamed]

end Injective

end Scope

end ScalarC
