import ScalarC.Proofs.Braces.Places

/-!
Exchanging a text at its place. Where two effects succeed alike, and in the same
scope, so do the effects of all that is put around them. The nodes may differ:
`alike` says how, for the nodes at a path, and it has to carry over to the nodes
around them.
-/

namespace ScalarC

/-- A relation of lists of nodes, by the path to where they differ, that carries over to longer
lists and to nodes with them as children. -/
structure Node.Congruent (alike : List Nat → List Node → List Node → Prop) : Prop where
  among {place : Nat} {path : List Nat} {nodes others : List Node} (left right : List Node) :
    alike (place :: path) nodes others →
    alike ((left.length + place) :: path) (left ++ nodes ++ right) (left ++ others ++ right)
  below {path : List Nat} {nodes others : List Node} (tag : Tag) (value : Option NodeValue)
    (type : Option DataType) :
    alike path nodes others → alike (0 :: path) [⟨tag, value, type, nodes⟩]
      [⟨tag, value, type, others⟩]

/-- A result with the scope that another one comes with, and related to it. -/
def Mirrored {α : Type} (related : α → α → Prop) (result other : Except ParseError (α × Scope)) :
    Prop :=
  ∀ value after, result = .ok (value, after) →
    ∃ given, other = .ok (given, after) ∧ related value given

namespace Mirrored

variable {α β γ : Type} {related : α → α → Prop} {whole : β → β → Prop}

theorem pure {value given : α} (same : related value given) (scope : Scope) :
    Mirrored related (.ok (value, scope)) (.ok (given, scope)) := by
  rintro _ _ ⟨⟩
  exact ⟨given, rfl, same⟩

theorem bind {result other : Except ParseError (α × Scope)}
    {next further : α × Scope → Except ParseError (β × Scope)}
    (mirrored : Mirrored related result other)
    (onward : ∀ value given scope, related value given →
      Mirrored whole (next (value, scope)) (further (given, scope))) :
    Mirrored whole (result >>= next) (other >>= further) := by
  intro last after done
  obtain ⟨⟨value, scope⟩, first, rest⟩ := bind_eq_ok.mp done
  obtain ⟨given, also, same⟩ := mirrored _ _ first
  rw [also]
  exact onward value given scope same _ _ rest

theorem behind (result : Except ParseError γ) {next further : γ → Except ParseError (β × Scope)}
    (onward : ∀ value, Mirrored whole (next value) (further value)) :
    Mirrored whole (result >>= next) (result >>= further) := by
  intro last after done
  obtain ⟨value, first, rest⟩ := bind_eq_ok.mp done
  rw [first]
  exact onward value _ _ rest

end Mirrored

namespace Command

namespace Effect

/-- An effect that succeeds where another does, in the same scope and with a related result. -/
def Mirrors {α : Type} (related : α → α → Prop) (effect other : Effect α) : Prop :=
  ∀ function depth scope,
    Mirrored related (effect function depth scope) (other function depth scope)

/-- Two effects on the body of a branch or a loop that are one effect around it. -/
structure Builds (index : Nat) (build : Effect Node → Effect Node) : Prop where
  mirrors {related whole : Node → Node → Prop} {effect other : Effect Node} :
    (∀ (tag : Tag) (left right : List Node) (node given : Node), left.length = index →
      related node given →
      whole ⟨tag, none, none, left ++ node :: right⟩ ⟨tag, none, none, left ++ given :: right⟩) →
    effect.Mirrors related other → (build effect).Mirrors whole (build other)

theorem builds_branch (test : Phrase) : Builds 1 (branch test) := by
  refine ⟨fun around mirrors function depth scope => ?_⟩
  refine .behind _ fun condition => (mirrors _ _ _).bind fun node given last same => ?_
  exact .pure (around .branch [condition] [] node given rfl same) last

theorem builds_chosen (test : Phrase) (alternative : Effect Node) :
    Builds 1 (branchElse test · alternative) := by
  refine ⟨fun around mirrors function depth scope => ?_⟩
  refine .behind _ fun condition => (mirrors _ _ _).bind fun node given last same => ?_
  refine .behind _ fun second => ?_
  exact .pure (around .branch [condition] [second.1] node given rfl same) second.2

theorem builds_alternative (test : Phrase) (chosen : Effect Node) :
    Builds 2 (branchElse test chosen) := by
  refine ⟨fun around mirrors function depth scope => ?_⟩
  refine .behind _ fun condition => .behind _ fun first => ?_
  refine (mirrors _ _ _).bind fun node given last same => ?_
  exact .pure (around .branch [condition, first.1] [] node given rfl same) last

theorem builds_whileLoop (test : Phrase) : Builds 1 (whileLoop test) := by
  refine ⟨fun around mirrors function depth scope => ?_⟩
  refine .behind _ fun condition => (mirrors _ _ _).bind fun node given last same => ?_
  exact .pure (around .whileLoop [condition] [] node given rfl same) last

theorem builds_doLoop (test : Phrase) : Builds 0 (doLoop · test) := by
  refine ⟨fun around mirrors function depth scope => ?_⟩
  refine (mirrors _ _ _).bind fun node given last same => .behind _ fun condition => ?_
  exact .pure (around .doLoop [] [condition] node given rfl same) last

theorem mirrors_embodied {command other : Command} {alike related : Node → Node → Prop}
    {effect given : Effect Node}
    (wraps : ∀ node also, alike node also → related (command.body node) (other.body also))
    (mirrors : effect.Mirrors alike given) :
    (effect.embodied command).Mirrors related (given.embodied other) :=
  fun _ _ _ => (mirrors _ _ _).bind fun node also last same => .pure (wraps node also same) last

theorem mirrors_block {alike : List Node → List Node → Prop} {related : Node → Node → Prop}
    {effect other : Effect (List Node)}
    (wraps : ∀ nodes given, alike nodes given →
      related ⟨.block, none, none, nodes⟩ ⟨.block, none, none, given⟩)
    (mirrors : effect.Mirrors alike other) : effect.block.Mirrors related other.block :=
  fun _ _ _ => (mirrors _ _ _).bind fun nodes given last same =>
    .pure (wraps nodes given same) last

theorem mirrors_first {alike : Node → Node → Prop} {related : List Node → List Node → Prop}
    {effect other : Effect Node} (others : Effect (List Node))
    (wraps : ∀ node given rest, alike node given → related (node :: rest) (given :: rest))
    (mirrors : effect.Mirrors alike other) :
    (effect.further others).Mirrors related (other.further others) :=
  fun _ _ _ => (mirrors _ _ _).bind fun node given _ same => .behind _ fun rest =>
    .pure (wraps node given rest.1 same) rest.2

theorem mirrors_later {alike related : List Node → List Node → Prop} (first : Effect Node)
    {effect other : Effect (List Node)}
    (wraps : ∀ node rest given, alike rest given → related (node :: rest) (node :: given))
    (mirrors : effect.Mirrors alike other) :
    (first.further effect).Mirrors related (first.further other) :=
  fun _ _ _ => .behind _ fun node => (mirrors _ _ _).bind fun rest given last same =>
    .pure (wraps node.1 rest given same) last

end Effect

theorem HasBody.does {before after : List Token} {index : Nat} {wrap : Command → Command}
    {closed : Bool} (has : HasBody Token.Declares before after index wrap closed) :
    ∃ build, Effect.Builds index build ∧
      ∀ tokens command effect, (closed = true → command.endsOpen = false) →
        Does tokens command effect →
        Does (before ++ tokens ++ after) (wrap command) (build (effect.embodied command)) := by
  cases has with
  | @branch _ _ test isIf isTest =>
      refine ⟨_, Effect.builds_branch test, fun tokens command effect _ does => ?_⟩
      simpa using does_branch isIf isTest does
  | @chosen _ _ _ _ test alternative isIf isTest isElse other =>
      obtain ⟨otherwise, outer⟩ := runs_of_derives other
      refine ⟨_, Effect.builds_chosen test (otherwise.embodied alternative), ?_⟩
      exact fun tokens command effect fits does =>
        does_branchElse isIf isTest does (fits rfl) isElse outer
  | @alternative _ _ _ _ test chosen isIf isTest derives ends isElse =>
      obtain ⟨first, inner⟩ := runs_of_derives derives
      refine ⟨_, Effect.builds_alternative test (first.embodied chosen),
        fun tokens command effect _ does => ?_⟩
      simpa using does_branchElse isIf isTest inner ends isElse does
  | @whileLoop _ _ test isWhile isTest =>
      refine ⟨_, Effect.builds_whileLoop test, fun tokens command effect _ does => ?_⟩
      simpa using does_whileLoop isWhile isTest does
  | @doLoop _ _ _ _ test isDo isWhile isTest isEnd =>
      refine ⟨_, Effect.builds_doLoop test, fun tokens command effect _ does => ?_⟩
      simpa using does_doLoop isDo does isWhile isTest isEnd

/-- A text that does like that of a command, which is another command. -/
structure Stands (alike : List Node → List Node → Prop) (tokens given : List Token)
    (command other : Command) : Prop where
  derives : Derives Token.Declares .statement tokens [command]
  derived : Derives Token.Declares .statement given [other]
  endsOpen : other.endsOpen = true → command.endsOpen = true
  single : command.IsSingle → other.IsSingle
  does : ∃ effect otherwise, Does tokens command effect ∧ Does given other otherwise ∧
    effect.Mirrors (fun node also => alike [node] [also]) otherwise

/-- A text that does like that of several commands, which is other commands. -/
structure StandsAll (alike : List Node → List Node → Prop) (tokens given : List Token)
    (commands others : List Command) : Prop where
  derives : Derives Token.Declares .sequence tokens commands
  derived : Derives Token.Declares .sequence given others
  does : ∃ effect otherwise, DoesAll tokens commands effect ∧ DoesAll given others otherwise ∧
    effect.Mirrors alike otherwise

def Exchanges (alike : List Node → List Node → Prop) (tokens given : List Token) :
    Symbol → List Command → Prop
  | .statement, commands => ∃ command other, commands = [command] ∧
      Stands alike tokens given command other
  | .sequence, commands => ∃ others, StandsAll alike tokens given commands others

section Places

variable {alike : List Nat → List Node → List Node → Prop} (congruent : Node.Congruent alike)
include congruent

theorem HasBody.stands {before after tokens given : List Token} {index : Nat}
    {wrap : Command → Command} {closed : Bool}
    (has : HasBody Token.Declares before after index wrap closed) {command other : Command}
    (fits : closed = true → command.endsOpen = false)
    (derives : Derives Token.Declares .statement tokens [command])
    (derived : Derives Token.Declares .statement given [other])
    (endsOpen : other.endsOpen = true → command.endsOpen = true) {effect otherwise : Effect Node}
    (does : Does tokens command effect) (also : Does given other otherwise) (path : List Nat)
    (mirrors : (effect.embodied command).Mirrors
      (fun node also => alike (0 :: path) [node] [also]) (otherwise.embodied other)) :
    Stands (alike (0 :: index :: path)) (before ++ tokens ++ after) (before ++ given ++ after)
      (wrap command) (wrap other) := by
  -- An `else` behind the body would otherwise be read with an `if` in the other one.
  have fitting : closed = true → other.endsOpen = false := by
    intro isClosed
    have closes := fits isClosed
    cases open_ : other.endsOpen with
    | false => rfl
    | true => simp [endsOpen open_] at closes
  obtain ⟨build, builds, done⟩ := has.does
  refine ⟨has.derives fits derives, has.derives fitting derived, has.endsOpen endsOpen,
    fun _ => has.isSingle other, _, _, done _ _ _ fits does, done _ _ _ fitting also, ?_⟩
  refine builds.mirrors (fun tag left right node given is same => ?_) mirrors
  have among := congruent.among left right same
  simpa [is] using congruent.below tag none none among

theorem Stands.first {path : List Nat} {start : Nat} {tokens given others : List Token}
    {command other : Command} {commands : List Command}
    (stands : Stands (alike (start :: path)) tokens given command other)
    (derives : Derives Token.Declares .sequence others commands) :
    StandsAll (alike (start :: path)) (tokens ++ others) (given ++ others)
      (command :: commands) (other :: commands) := by
  obtain ⟨_, more⟩ := runs_of_derives derives
  obtain ⟨_, _, does, also, mirrors⟩ := stands.does
  refine ⟨.further stands.derives derives, .further stands.derived derives, _, _,
    doesAll_further stands.derives does more, doesAll_further stands.derived also more,
    Effect.mirrors_first _ (fun node given rest same => ?_) mirrors⟩
  simpa using congruent.among [] rest same

theorem StandsAll.later {path : List Nat} {start : Nat} {tokens given first : List Token}
    {command : Command} {commands others : List Command}
    (stands : StandsAll (alike (start :: path)) tokens given commands others)
    (derives : Derives Token.Declares .statement first [command]) :
    StandsAll (alike ((1 + start) :: path)) (first ++ tokens) (first ++ given)
      (command :: commands) (command :: others) := by
  obtain ⟨_, one⟩ := runs_of_derives derives
  obtain ⟨_, _, does, also, mirrors⟩ := stands.does
  refine ⟨.further derives stands.derives, .further derives stands.derived, _, _,
    doesAll_further derives one does, doesAll_further derives one also,
    Effect.mirrors_later _ (fun node rest given same => ?_) mirrors⟩
  simpa using congruent.among [node] [] same

theorem StandsAll.block {path : List Nat} {tokens given : List Token} {opening closing : Token}
    {commands others : List Command}
    (stands : StandsAll (alike path) tokens given commands others)
    (isOpening : opening.toLexeme = .punctuation "\x7b")
    (isClosing : closing.toLexeme = .punctuation "\x7d") :
    Stands (alike (0 :: path)) (opening :: tokens ++ [closing]) (opening :: given ++ [closing])
      (.block commands) (.block others) := by
  obtain ⟨_, _, does, also, mirrors⟩ := stands.does
  exact ⟨.block isOpening stands.derives isClosing, .block isOpening stands.derived isClosing,
    nofun, fun single => absurd single (block_not_single _), _, _,
    does_block isOpening does isClosing, does_block isOpening also isClosing,
    Effect.mirrors_block (fun _ _ => congruent.below .block none none) mirrors⟩

theorem Inside.exchanges {whole commands : List Command} {before after : List Token}
    {path : List Nat} {place : Nat} {symbol : Symbol}
    (inside : Inside Token.Declares whole before after path place symbol commands)
    {tokens given : List Token} {start : Nat} {rest : List Nat}
    (exchanges : Exchanges (alike (start :: rest)) tokens given symbol commands) :
    ∃ others, StandsAll (alike (path ++ (place + start) :: rest)) (before ++ tokens ++ after)
      (before ++ given ++ after) whole others := by
  -- From the place outwards: what is exchanged in it is around it one exchange again, with the
  -- path longer by a step.
  induction inside generalizing tokens given start rest with
  | here => simpa [Exchanges] using exchanges
  | first _ derives ih =>
      obtain ⟨_, _, ⟨⟩, stands⟩ := exchanges
      simpa using ih ⟨_, stands.first congruent derives⟩
  | later _ derives ih =>
      obtain ⟨_, stands⟩ := exchanges
      simpa [Nat.add_assoc] using ih ⟨_, stands.later congruent derives⟩
  | block _ isOpening isClosing ih =>
      obtain ⟨_, stands⟩ := exchanges
      simpa using ih ⟨_, _, rfl, stands.block congruent isOpening isClosing⟩
  | @body _ _ _ _ _ _ _ _ _ command _ has fits single ih =>
      obtain ⟨_, other, ⟨⟩, stands⟩ := exchanges
      obtain ⟨effect, otherwise, does, also, mirrors⟩ := stands.does
      -- Neither of the two is a block, so the tree has a block around each.
      have bodies : (effect.embodied command).Mirrors
          (fun node given => alike (0 :: start :: rest) [node] [given])
          (otherwise.embodied other) := by
        refine Effect.mirrors_embodied (fun node given same => ?_) mirrors
        rw [single, stands.single single]
        exact congruent.below .block none none same
      have whole := has.stands congruent fits stands.derives stands.derived stands.endsOpen does
        also _ bodies
      simpa using ih ⟨_, _, rfl, whole⟩
  | @braces _ _ _ _ _ _ _ _ _ _ _ commands _ has isOpening isClosing ih =>
      obtain ⟨others, stands⟩ := exchanges
      have block := stands.block congruent isOpening isClosing
      obtain ⟨effect, otherwise, does, also, mirrors⟩ := block.does
      have bodies : (effect.embodied (.block commands)).Mirrors
          (fun node given => alike (0 :: start :: rest) [node] [given])
          (otherwise.embodied (.block others)) :=
        Effect.mirrors_embodied (fun node given => id) mirrors
      have whole := has.stands congruent (fun _ => rfl) block.derives block.derived block.endsOpen
        does also _ bodies
      simpa using ih ⟨_, _, rfl, whole⟩

end Places

end Command

namespace Program

def Effect.Mirrors (alike : List Node → List Node → Prop) (effect other : Effect) : Prop :=
  ∀ scope, Mirrored alike (effect scope) (other scope)

def Exchanges (alike : List Node → List Node → Prop) (tokens given : List Token) : Prop :=
  ∃ items others effect otherwise, Does tokens items effect ∧ Does given others otherwise ∧
    effect.Mirrors alike otherwise

section Places

variable {alike : List Nat → List Node → List Node → Prop} (congruent : Node.Congruent alike)
include congruent

theorem Exchanges.behind {tokens given earlier : List Token} {items : List Item} {place : Nat}
    {path : List Nat} (exchanges : Exchanges (alike (place :: path)) tokens given)
    (derives : Derives Token.Declares earlier items) :
    Exchanges (alike ((items.length + place) :: path)) (earlier ++ tokens) (earlier ++ given) := by
  induction derives with
  | nil => simpa using exchanges
  | cons first _ ih =>
      obtain ⟨_, one⟩ := first.does
      obtain ⟨_, _, effect, otherwise, does, also, mirrors⟩ := ih
      rw [List.append_assoc, List.append_assoc]
      refine ⟨_, _, _, _, does_cons first.ne_nil one does, does_cons first.ne_nil one also, ?_⟩
      refine fun scope => .behind _ fun node => (mirrors _).bind fun rest given last same =>
        .pure ?_ last
      simpa [Nat.add_comm, Nat.add_left_comm, Nat.add_assoc] using congruent.among [node.1] [] same

theorem exchanges_function {word name opening closing left right : Token}
    {returnType : Option DataType} {given tokens others later : List Token}
    {parameters : List (Token × DataType)} {body also : List Command} {items : List Item}
    {path : List Nat} (returns : Item.Returns Token.Declares word returnType)
    (isName : name.kind = .identifier) (isOpening : opening.toLexeme = .punctuation "(")
    (isList : Item.Parameters Token.Declares given parameters)
    (isClosing : closing.toLexeme = .punctuation ")")
    (isLeft : left.toLexeme = .punctuation "\x7b")
    (stands : Command.StandsAll (alike path) tokens others body also)
    (isRight : right.toLexeme = .punctuation "\x7d")
    (derives : Derives Token.Declares later items) :
    Exchanges (alike (0 :: 1 :: path))
      (word :: name :: opening :: given ++ closing :: left :: tokens ++ [right] ++ later)
      (word :: name :: opening :: given ++ closing :: left :: others ++ [right] ++ later) := by
  obtain ⟨_, behind⟩ := derives.does
  obtain ⟨effect, otherwise, all, too, mirrors⟩ := stands.does
  have one := Item.does_function returns isName isOpening isList isClosing isLeft all isRight
  have other := Item.does_function returns isName isOpening isList isClosing isLeft too isRight
  have function (scope : Scope) :
      Mirrored (fun node given => alike (0 :: 1 :: path) [node] [given])
        (Item.Effect.function returnType name parameters effect scope)
        (Item.Effect.function returnType name parameters otherwise scope) := by
    refine .behind _ fun entered => .behind _ fun declared => ?_
    refine (mirrors _ _ _).bind fun nodes given last same => .pure ?_ last.exitFunction
    let first : Node := ⟨.parameters, none, none, parameters.map Item.parameterNode⟩
    have children := congruent.among [first] [] (congruent.below .body none none same)
    exact congruent.below .function (some (.name name.text)) returnType children
  refine ⟨_, _, _, _, does_cons (by simp) one behind, does_cons (by simp) other behind, ?_⟩
  refine fun scope => (function scope).bind fun node given _ same => .behind _ fun rest => ?_
  exact .pure (by simpa using congruent.among [] rest.1 same) rest.2

theorem Inside.exchanges {commands : List Command} {before after tokens given : List Token}
    {path : List Nat} {place : Nat} {symbol : Command.Symbol}
    (inside : Inside Token.Declares before after path place symbol commands)
    (start : Nat) (rest : List Nat)
    (exchanges : Command.Exchanges (alike (start :: rest)) tokens given symbol commands) :
    Exchanges (alike (path ++ (place + start) :: rest)) (before ++ tokens ++ after)
      (before ++ given ++ after) := by
  cases inside with
  | function earlier returns isName isOpening isList isClosing isLeft inner isRight later =>
      obtain ⟨_, stands⟩ := inner.exchanges congruent exchanges
      have function := exchanges_function congruent returns isName isOpening isList isClosing isLeft
        stands isRight later
      simpa using function.behind congruent earlier

end Places

end Program

end ScalarC
