import ScalarC.Proofs.Item.Completeness

/-!
Places in a program. A statement stands as the body of a branch or a loop, or
among others between braces, and what is around it does with it the same
whatever it is. So a text can be exchanged for another at its place if both do
alike, down to where their nodes stand in the tree.
-/

namespace ScalarC

namespace Command

/-- What is around the body of a branch or a loop, which makes a command of the body. The body is
the child of this index in the tree. A body that is `closed` must not end in an open `if`. -/
inductive HasBody (names : Token → DataType → Prop) :
    List Token → List Token → Nat → (Command → Command) → Bool → Prop where
  | branch {word : Token} {tests : List Token} {test : Phrase} :
      word.toLexeme = .keyword "if" → Condition tests test →
      HasBody names (word :: tests) [] 1 (.branch test) false
  | chosen {word other : Token} {tests tokens : List Token} {test : Phrase}
      {alternative : Command} :
      word.toLexeme = .keyword "if" → Condition tests test → other.toLexeme = .keyword "else" →
      Derives names .statement tokens [alternative] →
      HasBody names (word :: tests) (other :: tokens) 1 (.branchElse test · alternative) true
  | alternative {word other : Token} {tests tokens : List Token} {test : Phrase}
      {chosen : Command} :
      word.toLexeme = .keyword "if" → Condition tests test →
      Derives names .statement tokens [chosen] → chosen.endsOpen = false →
      other.toLexeme = .keyword "else" →
      HasBody names (word :: tests ++ tokens ++ [other]) [] 2 (.branchElse test chosen) false
  | whileLoop {word : Token} {tests : List Token} {test : Phrase} :
      word.toLexeme = .keyword "while" → Condition tests test →
      HasBody names (word :: tests) [] 1 (.whileLoop test) false
  | doLoop {word other semicolon : Token} {tests : List Token} {test : Phrase} :
      word.toLexeme = .keyword "do" → other.toLexeme = .keyword "while" → Condition tests test →
      semicolon.toLexeme = .punctuation ";" →
      HasBody names [word] (other :: tests ++ [semicolon]) 0 (.doLoop · test) false

/-- Commands that are a body only in a block of their own. -/
def IsSingle (command : Command) : Prop :=
  ∀ node, command.body node = ⟨.block, none, none, [node]⟩

theorem block_not_single (commands : List Command) : ¬ (Command.block commands).IsSingle := by
  intro single
  have same : (⟨.module, none, none, []⟩ : Node) = _ := single ⟨.module, none, none, []⟩
  cases same

/-- Where statements stand in the commands of a body: what is before them and after them, the path
to the node they are children of and the place of the first of them among its children. -/
inductive Inside (names : Token → DataType → Prop) (whole : List Command) :
    List Token → List Token → List Nat → Nat → Symbol → List Command → Prop where
  | here : Inside names whole [] [] [] 0 .sequence whole
  | first {before after others : List Token} {path : List Nat} {place : Nat} {command : Command}
      {commands : List Command} :
      Inside names whole before after path place .sequence (command :: commands) →
      Derives names .sequence others commands →
      Inside names whole before (others ++ after) path place .statement [command]
  | later {before after first : List Token} {path : List Nat} {place : Nat} {command : Command}
      {commands : List Command} :
      Inside names whole before after path place .sequence (command :: commands) →
      Derives names .statement first [command] →
      Inside names whole (before ++ first) after path (place + 1) .sequence commands
  | block {before after : List Token} {opening closing : Token} {path : List Nat} {place : Nat}
      {commands : List Command} :
      Inside names whole before after path place .statement [.block commands] →
      opening.toLexeme = .punctuation "\x7b" → closing.toLexeme = .punctuation "\x7d" →
      Inside names whole (before ++ [opening]) (closing :: after) (path ++ [place]) 0 .sequence
        commands
  | body {before after left right : List Token} {path : List Nat} {place index : Nat}
      {wrap : Command → Command} {closed : Bool} {command : Command} :
      Inside names whole before after path place .statement [wrap command] →
      HasBody names left right index wrap closed → (closed = true → command.endsOpen = false) →
      command.IsSingle →
      Inside names whole (before ++ left) (right ++ after) (path ++ [place, index]) 0 .statement
        [command]
  | braces {before after left right : List Token} {opening closing : Token} {path : List Nat}
      {place index : Nat} {wrap : Command → Command} {closed : Bool} {commands : List Command} :
      Inside names whole before after path place .statement [wrap (.block commands)] →
      HasBody names left right index wrap closed →
      opening.toLexeme = .punctuation "\x7b" → closing.toLexeme = .punctuation "\x7d" →
      Inside names whole (before ++ left ++ [opening]) (closing :: right ++ after)
        (path ++ [place, index]) 0 .sequence commands

variable {names : Token → DataType → Prop} {before after tokens : List Token} {index : Nat}
  {wrap : Command → Command} {closed : Bool} {command other : Command}

theorem HasBody.derives (has : HasBody names before after index wrap closed)
    (fits : closed = true → command.endsOpen = false)
    (derives : Derives names .statement tokens [command]) :
    Derives names .statement (before ++ tokens ++ after) [wrap command] := by
  cases has with
  | branch isIf isTest => simpa using Derives.branch isIf isTest derives
  | chosen isIf isTest isElse other => exact .branchElse isIf isTest derives (fits rfl) isElse other
  | alternative isIf isTest chosen ends isElse =>
      simpa using Derives.branchElse isIf isTest chosen ends isElse derives
  | whileLoop isWhile isTest => simpa using Derives.whileLoop isWhile isTest derives
  | doLoop isDo isWhile isTest isEnd => simpa using Derives.doLoop isDo derives isWhile isTest isEnd

theorem HasBody.endsOpen (has : HasBody names before after index wrap closed)
    (less : other.endsOpen = true → command.endsOpen = true)
    (open_ : (wrap other).endsOpen = true) : (wrap command).endsOpen = true := by
  cases has with
  | branch => rfl
  | chosen => exact open_
  | alternative | whileLoop => exact less open_
  | doLoop => cases open_

theorem HasBody.isSingle (has : HasBody names before after index wrap closed) (command : Command) :
    (wrap command).IsSingle := by
  cases has <;> exact fun _ => rfl

theorem isSingle_of_begins {token : Token} {others : List Token}
    (derives : Derives names .statement (token :: others) [command])
    (noBlock : token.toLexeme ≠ .punctuation "\x7b") : command.IsSingle := by
  cases command with
  | block commands =>
      obtain ⟨_, _, same, isOpening⟩ := derives.opens_block
      cases same
      exact absurd isOpening noBlock
  | _ => exact fun _ => rfl

theorem Derives.append {rest : List Token} {commands others : List Command}
    (derives : Derives names .sequence tokens commands)
    (behind : Derives names .sequence rest others) :
    Derives names .sequence (tokens ++ rest) (commands ++ others) := by
  induction commands generalizing tokens with
  | nil =>
      cases derives
      exact behind
  | cons command commands ih =>
      cases derives with
      | further first inner =>
          rw [List.append_assoc]
          exact .further first (ih inner)

end Command

/-- Where statements stand in the functions of a program: what is before them and after them, the
path from the module to the node they are children of and the place of the first of them among its
children. -/
inductive Program.Inside (names : Token → DataType → Prop) :
    List Token → List Token → List Nat → Nat → Command.Symbol → List Command → Prop where
  | function {earlier later given before after : List Token}
      {word name opening closing left right : Token} {returnType : Option DataType}
      {parameters : List (Token × DataType)} {items others : List Item}
      {body commands : List Command} {path : List Nat} {place : Nat} {symbol : Command.Symbol} :
      Program.Derives names earlier items → Item.Returns names word returnType →
      name.kind = .identifier → opening.toLexeme = .punctuation "(" →
      Item.Parameters names given parameters → closing.toLexeme = .punctuation ")" →
      left.toLexeme = .punctuation "\x7b" →
      Command.Inside names body before after path place symbol commands →
      right.toLexeme = .punctuation "\x7d" → Program.Derives names later others →
      Inside names (earlier ++ (word :: name :: opening :: given ++ closing :: left :: before))
        (after ++ right :: later) (items.length :: 1 :: path) place symbol commands

end ScalarC
