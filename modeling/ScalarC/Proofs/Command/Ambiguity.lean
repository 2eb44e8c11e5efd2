import ScalarC.Proofs.Command.Grammar

/-!
Statements where an `else` may belong to any `if` before it. The grammar without
the rule that it belongs to the nearest derives no further texts: each of its
statements can be read the strict way, and then no jump stands outside of all
loops that did not before.
-/

namespace ScalarC

namespace Command

/-- A jump that stands in no loop of the command. -/
inductive Strays (word : String) : Command → Prop where
  | breakLoop : word = "break" → Strays word .breakLoop
  | continueLoop : word = "continue" → Strays word .continueLoop
  | branch {test : Phrase} {chosen : Command} :
      Strays word chosen → Strays word (.branch test chosen)
  | chosen {test : Phrase} {chosen alternative : Command} :
      Strays word chosen → Strays word (.branchElse test chosen alternative)
  | alternative {test : Phrase} {chosen alternative : Command} :
      Strays word alternative → Strays word (.branchElse test chosen alternative)
  | block {command : Command} {commands : List Command} :
      command ∈ commands → Strays word command → Strays word (.block commands)

def StraysAmong (word : String) (commands : List Command) : Prop :=
  ∃ command ∈ commands, Strays word command

@[simp] theorem straysAmong_singleton {word : String} {command : Command} :
    StraysAmong word [command] ↔ Strays word command := by
  simp [StraysAmong]

theorem straysAmong_cons {word : String} {command : Command} {commands : List Command} :
    StraysAmong word (command :: commands) ↔
      Strays word command ∨ StraysAmong word commands := by
  simp [StraysAmong]

theorem strays_block {word : String} {commands : List Command} :
    Strays word (.block commands) ↔ StraysAmong word commands := by
  constructor
  · rintro ⟨⟩
    exact ⟨_, ‹_›, ‹_›⟩
  · rintro ⟨command, member, stray⟩
    exact .block member stray

/-- The grammar of statements without a rule for the `else` behind several `if`s. -/
inductive Generates (names : Token → DataType → Prop) :
    Symbol → List Token → List Command → Prop where
  | strict {symbol : Symbol} {tokens : List Token} {commands : List Command} :
      Derives names symbol tokens commands → Generates names symbol tokens commands
  | further {first others : List Token} {command : Command} {commands : List Command} :
      Generates names .statement first [command] → Generates names .sequence others commands →
      Generates names .sequence (first ++ others) (command :: commands)
  | branch {word : Token} {tests tokens : List Token} {test : Phrase} {chosen : Command} :
      word.toLexeme = .keyword "if" → Condition tests test →
      Generates names .statement tokens [chosen] →
      Generates names .statement (word :: tests ++ tokens) [.branch test chosen]
  | branchElse {word other : Token} {tests first second : List Token} {test : Phrase}
      {chosen alternative : Command} :
      word.toLexeme = .keyword "if" → Condition tests test →
      Generates names .statement first [chosen] → other.toLexeme = .keyword "else" →
      Generates names .statement second [alternative] →
      Generates names .statement (word :: tests ++ first ++ other :: second)
        [.branchElse test chosen alternative]
  | whileLoop {word : Token} {tests tokens : List Token} {test : Phrase} {repeated : Command} :
      word.toLexeme = .keyword "while" → Condition tests test →
      Generates names .statement tokens [repeated] →
      Generates names .statement (word :: tests ++ tokens) [.whileLoop test repeated]
  | doLoop {word other semicolon : Token} {tests tokens : List Token} {test : Phrase}
      {repeated : Command} :
      word.toLexeme = .keyword "do" → Generates names .statement tokens [repeated] →
      other.toLexeme = .keyword "while" → Condition tests test →
      semicolon.toLexeme = .punctuation ";" →
      Generates names .statement (word :: tokens ++ other :: tests ++ [semicolon])
        [.doLoop repeated test]
  | block {opening closing : Token} {tokens : List Token} {commands : List Command} :
      opening.toLexeme = .punctuation "\x7b" → Generates names .sequence tokens commands →
      closing.toLexeme = .punctuation "\x7d" →
      Generates names .statement (opening :: tokens ++ [closing]) [.block commands]

variable {names : Token → DataType → Prop}

/-- An `else` behind a command that ends in an open `if` belongs to that `if`. -/
theorem Derives.attach {first second : List Token} {chosen alternative : Command} {other : Token}
    (derives : Derives names .statement first [chosen]) (isOpen : chosen.endsOpen = true)
    (isElse : other.toLexeme = .keyword "else")
    (derivesElse : Derives names .statement second [alternative]) :
    ∃ whole, Derives names .statement (first ++ other :: second) [whole] ∧
      ∀ word, Strays word whole → Strays word chosen ∨ Strays word alternative := by
  -- The derivation is followed to the last `if` of the command.
  generalize isStatement : Symbol.statement = symbol at derives
  generalize isChosen : [chosen] = commands at derives
  induction derives generalizing chosen with
  | @branch word tests tokens test inner isIf isTest derives ih =>
      cases isChosen
      cases closed : inner.endsOpen with
      | false =>
          refine ⟨.branchElse test inner alternative, ?_, ?_⟩
          · simpa using Derives.branchElse isIf isTest derives closed isElse derivesElse
          · rintro word (_ | _ | _ | stray | stray)
            · exact .inl (.branch stray)
            · exact .inr stray
      | true =>
          obtain ⟨whole, derives, strays⟩ := ih closed rfl rfl
          refine ⟨.branch test whole, ?_, ?_⟩
          · simpa using Derives.branch isIf isTest derives
          · rintro word (_ | _ | stray)
            exact (strays word stray).imp_left .branch
  | @branchElse word mark tests first third test inner others isIf isTest derives closed isMark
      derivesOthers _ ih =>
      cases isChosen
      obtain ⟨whole, derived, strays⟩ := ih (show others.endsOpen = true from isOpen) rfl rfl
      refine ⟨.branchElse test inner whole, ?_, ?_⟩
      · simpa using Derives.branchElse isIf isTest derives closed isMark derived
      · rintro word (_ | _ | _ | stray | stray)
        · exact .inl (.chosen stray)
        · exact (strays word stray).imp_left .alternative
  | @whileLoop word tests tokens test repeated isWhile isTest _ ih =>
      cases isChosen
      obtain ⟨whole, derives, _⟩ := ih (show repeated.endsOpen = true from isOpen) rfl rfl
      refine ⟨.whileLoop test whole, ?_, nofun⟩
      simpa using Derives.whileLoop isWhile isTest derives
  | none | further => cases isStatement
  | _ =>
      cases isChosen
      cases isOpen

/-- Whatever can be read with some choice of `if`s can be read with the nearest. -/
theorem Generates.derives {symbol : Symbol} {tokens : List Token} {commands : List Command}
    (generates : Generates names symbol tokens commands) :
    ∃ others, Derives names symbol tokens others ∧ others.length = commands.length ∧
      ∀ word, StraysAmong word others → StraysAmong word commands := by
  induction generates with
  | strict derives => exact ⟨_, derives, rfl, fun _ => id⟩
  | further _ _ first others =>
      obtain ⟨single, derives, one, strays⟩ := first
      obtain ⟨command, rfl⟩ := List.length_eq_one_iff.mp one
      obtain ⟨commands, derived, length, further⟩ := others
      refine ⟨command :: commands, .further derives derived, by simp [length], fun word among => ?_⟩
      rw [straysAmong_cons] at among ⊢
      refine among.imp (fun stray => ?_) (further word)
      simpa using strays word (by simpa using stray)
  | branch isIf isTest _ ih =>
      obtain ⟨single, derives, one, strays⟩ := ih
      obtain ⟨chosen, rfl⟩ := List.length_eq_one_iff.mp one
      simp only [straysAmong_singleton] at strays ⊢
      refine ⟨_, .branch isIf isTest derives, rfl, fun word stray => ?_⟩
      cases straysAmong_singleton.mp stray with
      | branch stray => exact .branch (strays word stray)
  | @branchElse word other tests _ _ test _ _ isIf isTest _ isElse _ first second =>
      obtain ⟨single, derives, one, strays⟩ := first
      obtain ⟨chosen, rfl⟩ := List.length_eq_one_iff.mp one
      obtain ⟨single, derivesElse, one, straysElse⟩ := second
      obtain ⟨alternative, rfl⟩ := List.length_eq_one_iff.mp one
      simp only [straysAmong_singleton] at strays straysElse ⊢
      cases closed : chosen.endsOpen with
      | false =>
          refine ⟨_, .branchElse isIf isTest derives closed isElse derivesElse, rfl, ?_⟩
          intro word stray
          cases straysAmong_singleton.mp stray with
          | chosen stray => exact .chosen (strays word stray)
          | alternative stray => exact .alternative (straysElse word stray)
      | true =>
          -- The `else` moves into the command before it.
          obtain ⟨whole, derived, attached⟩ := derives.attach closed isElse derivesElse
          refine ⟨[.branch test whole], ?_, rfl, fun word stray => ?_⟩
          · simpa using Derives.branch isIf isTest derived
          · cases straysAmong_singleton.mp stray with
            | branch stray =>
                rcases attached word stray with inner | outer
                · exact .chosen (strays word inner)
                · exact .alternative (straysElse word outer)
  | whileLoop isWhile isTest _ ih =>
      obtain ⟨single, derives, one, _⟩ := ih
      obtain ⟨repeated, rfl⟩ := List.length_eq_one_iff.mp one
      refine ⟨_, .whileLoop isWhile isTest derives, rfl, fun word stray => ?_⟩
      cases straysAmong_singleton.mp stray
  | doLoop isDo _ isWhile isTest isEnd ih =>
      obtain ⟨single, derives, one, _⟩ := ih
      obtain ⟨repeated, rfl⟩ := List.length_eq_one_iff.mp one
      refine ⟨_, .doLoop isDo derives isWhile isTest isEnd, rfl, fun word stray => ?_⟩
      cases straysAmong_singleton.mp stray
  | block opening _ closing ih =>
      obtain ⟨commands, derives, _, strays⟩ := ih
      refine ⟨_, .block opening derives closing, rfl, fun word stray => ?_⟩
      rw [straysAmong_singleton, strays_block] at stray ⊢
      exact strays word stray

end Command

end ScalarC
