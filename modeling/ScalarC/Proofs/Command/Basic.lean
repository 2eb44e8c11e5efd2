import ScalarC.Proofs.Phrase.Elaboration
import ScalarC.Proofs.Scope

/-!
Commands: statements as they are written. A command that opens a loop or a
branch holds the commands inside it, with or without braces, and `Elaborates`
types commands in order: each in the scope the one before it leaves behind.
-/

namespace ScalarC

inductive Command where
  | declared (type : DataType) (name : Token)
  | initialized (type : DataType) (name : Token) (value : Phrase)
  | returned
  | returnedValue (value : Phrase)
  | branch (test : Phrase) (chosen : Command)
  | branchElse (test : Phrase) (chosen alternative : Command)
  | whileLoop (test : Phrase) (repeated : Command)
  | doLoop (repeated : Command) (test : Phrase)
  | breakLoop
  | continueLoop
  | block (commands : List Command)
  | expression (phrase : Phrase)

/-- An assignment stands on its own as a statement; any other value is discarded. -/
def Node.asStatement (node : Node) : Node :=
  if node.tag = .localSet ∨ node.tag = .globalSet then node else ⟨.expression, none, none, [node]⟩

namespace Command

/-- Whether a command ends in an `if` that an `else` behind it would belong to. -/
def endsOpen : Command → Bool
  | branch _ _ => true
  | branchElse _ _ alternative => alternative.endsOpen
  | whileLoop _ repeated => repeated.endsOpen
  | _ => false

/-- The body of a branch or a loop is a block, of one statement if it has no braces. -/
def body : Command → Node → Node
  | block _, node => node
  | _, node => ⟨.block, none, none, [node]⟩

/-- The nodes of commands in a function, under so many loops. A command alone has one node. -/
inductive Elaborates (function : Enclosing) :
    Nat → Scope → List Command → List Node → Scope → Prop where
  | nil {depth : Nat} {scope : Scope} : Elaborates function depth scope [] [] scope
  | cons {depth : Nat} {scope middle after : Scope} {command : Command} {commands : List Command}
      {node : Node} {nodes : List Node} :
      Elaborates function depth scope [command] [node] middle →
      Elaborates function depth middle commands nodes after →
      Elaborates function depth scope (command :: commands) (node :: nodes) after
  | declared {depth : Nat} {scope after : Scope} {type : DataType} {name : Token}
      {entry : Variable} :
      scope.declareLocal name.text type name.location = .ok (entry, after) →
      Elaborates function depth scope [.declared type name]
        [⟨.localVar, some (.name name.text), some type, []⟩] after
  | initialized {depth : Nat} {scope after : Scope} {type : DataType} {name : Token}
      {value : Phrase} {node : Node} {entry : Variable} :
      value.Yields scope type node →
      scope.declareLocal name.text type name.location = .ok (entry, after) →
      Elaborates function depth scope [.initialized type name value]
        [⟨.localVar, some (.name name.text), some type, [node]⟩] after
  | returned {depth : Nat} {scope : Scope} :
      function.returnType = none →
      Elaborates function depth scope [.returned]
        [⟨.returned, some (.name function.name), none, []⟩] scope
  | returnedValue {depth : Nat} {scope : Scope} {type : DataType} {value : Phrase}
      {node : Node} :
      function.returnType = some type → value.Yields scope type node →
      Elaborates function depth scope [.returnedValue value]
        [⟨.returned, some (.name function.name), some type, [node]⟩] scope
  | branch {depth : Nat} {scope after : Scope} {test : Phrase} {chosen : Command}
      {condition node : Node} :
      test.Yields scope .i32 condition →
      Elaborates function depth scope [chosen] [node] after →
      Elaborates function depth scope [.branch test chosen]
        [⟨.branch, none, none, [condition, chosen.body node]⟩] after
  | branchElse {depth : Nat} {scope middle after : Scope} {test : Phrase}
      {chosen alternative : Command} {condition node other : Node} :
      test.Yields scope .i32 condition →
      Elaborates function depth scope [chosen] [node] middle →
      Elaborates function depth middle [alternative] [other] after →
      Elaborates function depth scope [.branchElse test chosen alternative]
        [⟨.branch, none, none, [condition, chosen.body node, alternative.body other]⟩] after
  | whileLoop {depth : Nat} {scope after : Scope} {test : Phrase} {repeated : Command}
      {condition node : Node} :
      test.Yields scope .i32 condition →
      Elaborates function (depth + 1) scope [repeated] [node] after →
      Elaborates function depth scope [.whileLoop test repeated]
        [⟨.whileLoop, none, none, [condition, repeated.body node]⟩] after
  | doLoop {depth : Nat} {scope after : Scope} {test : Phrase} {repeated : Command}
      {condition node : Node} :
      Elaborates function (depth + 1) scope [repeated] [node] after →
      test.Yields after .i32 condition →
      Elaborates function depth scope [.doLoop repeated test]
        [⟨.doLoop, none, none, [repeated.body node, condition]⟩] after
  | breakLoop {depth : Nat} {scope : Scope} :
      depth ≠ 0 →
      Elaborates function depth scope [.breakLoop] [⟨.breakLoop, none, none, []⟩] scope
  | continueLoop {depth : Nat} {scope : Scope} :
      depth ≠ 0 →
      Elaborates function depth scope [.continueLoop] [⟨.continueLoop, none, none, []⟩] scope
  | block {depth : Nat} {scope after : Scope} {commands : List Command} {nodes : List Node} :
      Elaborates function depth scope commands nodes after →
      Elaborates function depth scope [.block commands] [⟨.block, none, none, nodes⟩] after
  | expression {depth : Nat} {scope : Scope} {phrase : Phrase} {node : Node} :
      phrase.elaborate scope .i32 = some node →
      Elaborates function depth scope [.expression phrase] [node.asStatement] scope

theorem Elaborates.module_same {function : Enclosing} {depth : Nat} {scope after : Scope}
    {commands : List Command} {nodes : List Node}
    (elaborates : Elaborates function depth scope commands nodes after) :
    after.globals = scope.globals ∧ after.functions = scope.functions := by
  induction elaborates with
  | cons _ _ first others | branchElse _ _ _ first others =>
      exact ⟨others.1.trans first.1, others.2.trans first.2⟩
  | declared entered | initialized _ entered =>
      obtain ⟨_, _, _, _, rfl⟩ := Scope.declareInFunction_eq_ok.mp entered
      exact ⟨rfl, rfl⟩
  | branch _ _ ih | whileLoop _ _ ih | doLoop _ _ ih | block _ ih => exact ih
  | _ => exact ⟨rfl, rfl⟩

end Command

end ScalarC
