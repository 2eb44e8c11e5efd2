import ScalarC.Proofs.Braces.Gathering

/-!
Braces change no scope. A block opens none, and the body of a branch or a loop is
a block in the tree anyway. So braces around such a body leave the tree as it is,
and braces around statements gather their nodes in a block.
-/

namespace ScalarC

namespace Command

namespace Effect

def followed (first others : Effect (List Node)) : Effect (List Node) :=
  fun function depth scope => do
    let one ← first function depth scope
    let more ← others function depth one.2
    return (one.1 ++ more.1, more.2)

theorem nothing_followed (others : Effect (List Node)) : nothing.followed others = others := by
  funext function depth scope
  cases done : others function depth scope <;> simp [followed, nothing, done]

theorem further_followed (first : Effect Node) (others behind : Effect (List Node)) :
    (first.further others).followed behind = first.further (others.followed behind) := by
  funext function depth scope
  simp [followed, further]

end Effect

theorem doesAll_append {tokens rest : List Token} {commands others : List Command}
    {behind : Effect (List Node)} (derives : Derives Token.Declares .sequence tokens commands)
    (more : DoesAll rest others behind) :
    ∃ effect, DoesAll tokens commands effect ∧
      DoesAll (tokens ++ rest) (commands ++ others) (effect.followed behind) ∧
      ∀ function depth scope nodes after, effect function depth scope = .ok (nodes, after) →
        nodes.length = commands.length := by
  induction commands generalizing tokens with
  | nil =>
      cases derives
      refine ⟨_, doesAll_nothing, by rwa [Effect.nothing_followed], ?_⟩
      rintro _ _ _ _ _ ⟨⟩
      rfl
  | cons command commands ih =>
      cases derives with
      | further first inner =>
          obtain ⟨_, one⟩ := runs_of_derives first
          obtain ⟨effect, all, both, length⟩ := ih inner
          refine ⟨_, doesAll_further first one all, ?_, ?_⟩
          · rw [Effect.further_followed, List.append_assoc]
            exact doesAll_further first one both
          · intro function depth scope nodes after done
            simp only [Effect.further, bind_eq_ok, Prod.exists, pure_ok, Except.ok.injEq,
              Prod.mk.injEq] at done
            obtain ⟨node, _, _, rest, _, ran, rfl, rfl⟩ := done
            simp [length _ _ _ _ _ ran]

variable {opening closing : Token} (isOpening : opening.toLexeme = .punctuation "\x7b")
  (isClosing : closing.toLexeme = .punctuation "\x7d")
include isOpening isClosing

theorem HasBody.braces {before after tokens : List Token} {index : Nat} {wrap : Command → Command}
    {closed : Bool} (has : HasBody Token.Declares before after index wrap closed)
    {command : Command} (fits : closed = true → command.endsOpen = false)
    (derives : Derives Token.Declares .statement tokens [command]) (single : command.IsSingle) :
    Stands (fun nodes others => nodes = others) (before ++ tokens ++ after)
      (before ++ (opening :: tokens ++ [closing]) ++ after) (wrap command)
      (wrap (.block [command])) := by
  obtain ⟨effect, does⟩ := runs_of_derives derives
  have only := doesAll_further derives does doesAll_nothing
  have block := does_block isOpening only isClosing
  rw [List.append_nil] at block
  have derived : Derives Token.Declares .statement (opening :: tokens ++ [closing])
      [.block [command]] := by
    simpa using Derives.block isOpening (.further derives .none) isClosing
  refine has.stands Node.eq_congruent fits derives derived nofun does block [] ?_
  intro function depth scope node after done
  simp only [Effect.embodied, bind_eq_ok, Prod.exists, pure_ok, Except.ok.injEq,
    Prod.mk.injEq] at done
  obtain ⟨inner, _, ran, rfl, rfl⟩ := done
  -- The braces are the block that the body would have been put in.
  refine ⟨⟨.block, none, none, [inner]⟩, ?_, by rw [single]⟩
  simp [Effect.embodied, Effect.block, Effect.further, Effect.nothing, ran, body]

theorem standsAll_gathered {tokens rest : List Token} {commands others : List Command}
    (derives : Derives Token.Declares .sequence tokens commands)
    (behind : Derives Token.Declares .sequence rest others) :
    StandsAll (Node.GathersIn commands.length [0]) (tokens ++ rest)
      (opening :: tokens ++ [closing] ++ rest) (commands ++ others)
      (.block commands :: others) := by
  obtain ⟨after, more⟩ := runs_of_derives behind
  obtain ⟨effect, all, both, length⟩ := doesAll_append derives more
  have block := Derives.block isOpening derives isClosing
  have gathered := doesAll_further block (does_block isOpening all isClosing) more
  refine ⟨derives.append behind, .further block behind, _, _, both, gathered, ?_⟩
  intro function depth scope nodes last done
  simp only [Effect.followed, bind_eq_ok, Prod.exists, pure_ok, Except.ok.injEq,
    Prod.mk.injEq] at done
  obtain ⟨run, _, ran, left, _, also, rfl, rfl⟩ := done
  refine ⟨⟨.block, none, none, run⟩ :: left, ?_, run, length _ _ _ _ _ ran,
    fun _ _ _ => .here [] left⟩
  simp [Effect.further, Effect.block, ran, also]

end Command

namespace Program

/-- The only statement of the body of a branch or a loop in a program, with all before it and
behind it. -/
inductive BodyAt : List Token → List Token → List Token → Prop where
  | intro {before after left right tokens : List Token} {path : List Nat} {place index : Nat}
      {wrap : Command → Command} {closed : Bool} {command : Command} :
      Inside Token.Declares before after path place .statement [wrap command] →
      Command.HasBody Token.Declares left right index wrap closed →
      (closed = true → command.endsOpen = false) →
      Command.Derives Token.Declares .statement tokens [command] →
      BodyAt (before ++ left) tokens (right ++ after)

/-- So many statements, one after the other, of the body of a function or of a block, with all
before them and behind them and the path to where their nodes begin in the tree. -/
inductive RunAt : List Token → List Token → List Token → List Nat → Nat → Prop where
  | intro {before after tokens rest : List Token} {path : List Nat} {place : Nat}
      {commands others : List Command} :
      Inside Token.Declares before after path place .sequence (commands ++ others) →
      Command.Derives Token.Declares .sequence tokens commands →
      Command.Derives Token.Declares .sequence rest others →
      RunAt before tokens (rest ++ after) (path ++ [place]) commands.length

theorem Exchanges.parse {alike : List Node → List Node → Prop} {tokens given : List Token}
    {opening closing finish : Token} {module : Node} (exchanges : Exchanges alike tokens given)
    (isOpening : opening.toLexeme = .punctuation "\x7b")
    (isClosing : closing.toLexeme = .punctuation "\x7d")
    (braced : ∀ token ∈ given, token ∈ tokens ∨ token = opening ∨ token = closing)
    (parsed : parse (tokens ++ [finish]) = .ok module) :
    ∃ nodes, ScalarC.parse (given ++ [finish]) = .ok ⟨.module, none, none, nodes⟩ ∧
      module = ⟨.module, none, none, module.children⟩ ∧ alike module.children nodes := by
  obtain ⟨read, last, _, _, _, same, closed, _⟩ := parse_reads parsed
  obtain ⟨rfl, rfl⟩ : tokens = read ∧ finish = last := by simpa using List.append_inj' same rfl
  have real : ∀ token ∈ given, token.kind ≠ .endOfInput := by
    intro token member
    rcases braced token member with member | rfl | rfl
    · exact closed.2 token member
    · rw [isOpening]
      nofun
    · rw [isClosing]
      nofun
  obtain ⟨_, _, effect, otherwise, does, also, mirrors⟩ := exchanges
  rw [does.parse_all closed.1 closed.2] at parsed
  simp only [bind_eq_ok, Prod.exists, Except.ok.injEq] at parsed
  obtain ⟨nodes, _, done, rfl⟩ := parsed
  obtain ⟨others, still, alike⟩ := mirrors _ _ _ done
  refine ⟨others, ?_, rfl, alike⟩
  rw [also.parse_all closed.1 real]
  simp [still]

end Program

/-- Braces around the only statement of a body leave the tree as it is. Braces around statements
of a body or a block gather their nodes in a block, and nothing else is changed: every name refers
to what it did before. -/
theorem parse_braced {opening closing : Token} (isOpening : opening.toLexeme = .punctuation "\x7b")
    (isClosing : closing.toLexeme = .punctuation "\x7d") (finish : Token) :
    (∀ before body after module, Program.BodyAt before body after →
      (∀ token ∈ body.head?, token.toLexeme ≠ .punctuation "\x7b") →
      parse (before ++ body ++ after ++ [finish]) = .ok module →
      parse (before ++ (opening :: body ++ [closing]) ++ after ++ [finish]) = .ok module) ∧
    ∀ before run after path count module, Program.RunAt before run after path count →
      parse (before ++ run ++ after ++ [finish]) = .ok module →
      ∃ nodes other,
        parse (before ++ (opening :: run ++ [closing]) ++ after ++ [finish]) = .ok other ∧
          nodes.length = count ∧ Node.Gathers nodes path module other ∧
          List.Forall₂ Node.SameNames module.children other.children ∧
          ∀ item place, other.referent? item place = module.referent? item place := by
  constructor
  · rintro _ body _ module ⟨inside, has, fits, derives⟩ noBraces parsed
    obtain ⟨token, others, rfl⟩ := List.exists_cons_of_ne_nil derives.ne_nil
    have single := Command.isSingle_of_begins derives (noBraces token rfl)
    have stands := has.braces isOpening isClosing fits derives single
    have exchanges := inside.exchanges Node.eq_congruent 0 [] ⟨_, _, rfl, stands⟩
    simp only [← List.append_assoc] at exchanges parsed ⊢
    obtain ⟨nodes, also, same, rfl⟩ := exchanges.parse isOpening isClosing (by grind) parsed
    rw [same]
    exact also
  · rintro _ run _ _ _ module ⟨inside, derives, behind⟩ parsed
    have gathered := Command.standsAll_gathered isOpening isClosing derives behind
    have exchanges := inside.exchanges (Node.gathersIn_congruent _) 0 [] ⟨_, gathered⟩
    simp only [← List.append_assoc] at exchanges parsed ⊢
    obtain ⟨others, also, same, nodes, length, gathers⟩ :=
      exchanges.parse isOpening isClosing (by grind) parsed
    have whole := gathers .module none none
    rw [← same] at whole
    have names : List.Forall₂ Node.SameNames module.children others := by
      cases inside with
      | function => exact whole.sameNames
    exact ⟨nodes, _, also, length, whole, names, Node.referent?_same names⟩

section Sample

/-- The tokens of `void f() {int x; while (1) break; x;}`. -/
def Program.bare : List Token :=
  let word (text : String) : Token := (Lexeme.keyword text).token
  let name (text : String) : Token := Lexeme.token ⟨.identifier, text⟩
  let mark (text : String) : Token := (Lexeme.punctuation text).token
  [word "void", name "f", mark "(", mark ")", mark "\x7b", word "int", name "x", mark ";",
    word "while", mark "(", Lexeme.token ⟨.number, "1"⟩, mark ")", word "break", mark ";",
    name "x", mark ";", mark "\x7d", Lexeme.endOfInput.token]

def Program.bareTree : Node :=
  let declared : Node := ⟨.localVar, some (.name "x"), some .i32, []⟩
  let test : Node := ⟨.number, some (.int 1), some .i32, []⟩
  let jump : Node := ⟨.breakLoop, none, none, []⟩
  let read : Node := ⟨.localGet, some (.name "x"), some .i32, []⟩
  ⟨.module, none, none,
    [⟨.function, some (.name "f"), none, [⟨.parameters, none, none, []⟩, ⟨.body, none, none,
      [declared, ⟨.whileLoop, none, none, [test, ⟨.block, none, none, [jump]⟩]⟩,
        ⟨.expression, none, none, [read]⟩]⟩]⟩]⟩

private theorem bare_inside {before after : List Token} {path : List Nat} {place : Nat}
    {symbol : Command.Symbol} {body commands : List Command}
    (inside : Command.Inside Token.Declares body before after path place symbol commands) :
    Program.Inside Token.Declares (Program.bare.take 5 ++ before)
      (after ++ (Program.bare.drop 16).take 1) (0 :: 1 :: path) place symbol commands :=
  .function .nil (.void rfl) rfl rfl .none rfl rfl inside rfl .nil

private theorem bare_derives : ∃ declared loop test read,
    Command.Derives Token.Declares .statement ((Program.bare.drop 5).take 3) [declared] ∧
    Command.Condition ((Program.bare.drop 9).take 3) test ∧
    Command.Derives Token.Declares .statement ((Program.bare.drop 12).take 2) [loop] ∧
    Command.Derives Token.Declares .statement ((Program.bare.drop 14).take 2) [read] :=
  ⟨_, _, _, _, .declared ⟨.inl rfl, rfl⟩ rfl rfl, .intro rfl rfl (.of_primary (.number rfl)),
    .breakLoop rfl rfl, .expression (.of_primary (.reference rfl)) rfl⟩

/-- The loop has a body without braces, and the variable is read behind the braces around its
declaration. -/
theorem Program.bare_braced :
    let opening := (Lexeme.punctuation "\x7b").token
    let closing := (Lexeme.punctuation "\x7d").token
    let finish := Lexeme.endOfInput.token
    parse bare = .ok bareTree ∧
      parse (bare.take 12 ++ (opening :: (bare.drop 12).take 2 ++ [closing]) ++
        (bare.drop 14).take 3 ++ [finish]) = .ok bareTree ∧
      ∃ nodes other,
        parse (bare.take 5 ++ (opening :: (bare.drop 5).take 3 ++ [closing]) ++
          (bare.drop 8).take 9 ++ [finish]) = .ok other ∧
        nodes.length = 1 ∧ Node.Gathers nodes [0, 1, 0] bareTree other ∧
        other.referent? 0 1 = some (.own 0) := by
  intro opening closing finish
  have parsed : parse bare = .ok bareTree := toOption_eq_some.mp (by decide +kernel)
  obtain ⟨declared, loop, test, read, declares, isTest, jumps, reads⟩ := bare_derives
  have loops : Command.Derives Token.Declares .statement ((bare.drop 8).take 6) _ :=
    .whileLoop rfl isTest jumps
  have use := Command.Derives.further reads .none
  have body : BodyAt (bare.take 12) ((bare.drop 12).take 2) ((bare.drop 14).take 3) :=
    .intro (bare_inside (.first (.later .here declares) use)) (.whileLoop rfl isTest) nofun jumps
  have run : RunAt (bare.take 5) ((bare.drop 5).take 3) ((bare.drop 8).take 9) [0, 1, 0] 1 :=
    .intro (bare_inside .here) (.further declares .none) (.further loops use)
  have isOpening : opening.toLexeme = .punctuation "\x7b" := rfl
  have isClosing : closing.toLexeme = .punctuation "\x7d" := rfl
  have noBraces : ∀ token ∈ ((bare.drop 12).take 2).head?,
      token.toLexeme ≠ .punctuation "\x7b" := by
    decide
  -- By the lists alone, since a parse is not evaluated outside of the kernel.
  have split : bare.take 12 ++ (bare.drop 12).take 2 ++ (bare.drop 14).take 3 ++ [finish] = bare :=
    rfl
  have cut : bare.take 5 ++ (bare.drop 5).take 3 ++ (bare.drop 8).take 9 ++ [finish] = bare :=
    rfl
  have referent : bareTree.referent? 0 1 = some (.own 0) := by decide
  obtain ⟨around, among⟩ := parse_braced isOpening isClosing finish
  have same := around _ _ _ bareTree body noBraces
  have other := among _ _ _ _ _ bareTree run
  rw [split] at same
  rw [cut] at other
  obtain ⟨nodes, other, also, length, gathers, _, refers⟩ := other parsed
  exact ⟨parsed, same parsed, nodes, other, also, length, gathers, (refers 0 1).trans referent⟩

end Sample

end ScalarC
