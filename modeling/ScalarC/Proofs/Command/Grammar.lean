import ScalarC.Proofs.Command.Basic
import ScalarC.Proofs.Phrase.Grammar

/-!
The grammar of statements. It is taken with the tokens that name a type as a
parameter: keywords do, and a stream that was not scanned from a source may
spell a type as an identifier. An `else` belongs to the nearest `if`, so the
statement before one must not end in an `if` that is still open.
-/

namespace ScalarC

/-- A word that declares a type where a declaration can stand. -/
def Token.Declares (word : Token) (type : DataType) : Prop :=
  (word.kind = .keyword ∨ word.kind = .identifier) ∧ DataType.ofWord? word.text = some type

namespace Command

inductive Symbol where
  | statement
  | sequence

inductive Condition : List Token → Phrase → Prop where
  | intro {opening closing : Token} {tokens : List Token} {test : Phrase} :
      opening.toLexeme = .punctuation "(" → closing.toLexeme = .punctuation ")" →
      Phrase.Derives .expression tokens [test] →
      Condition (opening :: tokens ++ [closing]) test

inductive Derives (names : Token → DataType → Prop) :
    Symbol → List Token → List Command → Prop where
  | none : Derives names .sequence [] []
  | further {first others : List Token} {command : Command} {commands : List Command} :
      Derives names .statement first [command] → Derives names .sequence others commands →
      Derives names .sequence (first ++ others) (command :: commands)
  | declared {word name semicolon : Token} {type : DataType} :
      names word type → name.kind = .identifier → semicolon.toLexeme = .punctuation ";" →
      Derives names .statement [word, name, semicolon] [.declared type name]
  | initialized {word name mark semicolon : Token} {type : DataType} {tokens : List Token}
      {value : Phrase} :
      names word type → name.kind = .identifier → mark.toLexeme = .operator "=" →
      Phrase.Derives .expression tokens [value] → semicolon.toLexeme = .punctuation ";" →
      Derives names .statement (word :: name :: mark :: tokens ++ [semicolon])
        [.initialized type name value]
  | returned {word semicolon : Token} :
      word.toLexeme = .keyword "return" → semicolon.toLexeme = .punctuation ";" →
      Derives names .statement [word, semicolon] [.returned]
  | returnedValue {word semicolon : Token} {tokens : List Token} {value : Phrase} :
      word.toLexeme = .keyword "return" → Phrase.Derives .expression tokens [value] →
      semicolon.toLexeme = .punctuation ";" →
      Derives names .statement (word :: tokens ++ [semicolon]) [.returnedValue value]
  | branch {word : Token} {tests tokens : List Token} {test : Phrase} {chosen : Command} :
      word.toLexeme = .keyword "if" → Condition tests test →
      Derives names .statement tokens [chosen] →
      Derives names .statement (word :: tests ++ tokens) [.branch test chosen]
  | branchElse {word other : Token} {tests first second : List Token} {test : Phrase}
      {chosen alternative : Command} :
      word.toLexeme = .keyword "if" → Condition tests test →
      Derives names .statement first [chosen] → chosen.endsOpen = false →
      other.toLexeme = .keyword "else" → Derives names .statement second [alternative] →
      Derives names .statement (word :: tests ++ first ++ other :: second)
        [.branchElse test chosen alternative]
  | whileLoop {word : Token} {tests tokens : List Token} {test : Phrase} {repeated : Command} :
      word.toLexeme = .keyword "while" → Condition tests test →
      Derives names .statement tokens [repeated] →
      Derives names .statement (word :: tests ++ tokens) [.whileLoop test repeated]
  | doLoop {word other semicolon : Token} {tests tokens : List Token} {test : Phrase}
      {repeated : Command} :
      word.toLexeme = .keyword "do" → Derives names .statement tokens [repeated] →
      other.toLexeme = .keyword "while" → Condition tests test →
      semicolon.toLexeme = .punctuation ";" →
      Derives names .statement (word :: tokens ++ other :: tests ++ [semicolon])
        [.doLoop repeated test]
  | breakLoop {word semicolon : Token} :
      word.toLexeme = .keyword "break" → semicolon.toLexeme = .punctuation ";" →
      Derives names .statement [word, semicolon] [.breakLoop]
  | continueLoop {word semicolon : Token} :
      word.toLexeme = .keyword "continue" → semicolon.toLexeme = .punctuation ";" →
      Derives names .statement [word, semicolon] [.continueLoop]
  | block {opening closing : Token} {tokens : List Token} {commands : List Command} :
      opening.toLexeme = .punctuation "\x7b" → Derives names .sequence tokens commands →
      closing.toLexeme = .punctuation "\x7d" →
      Derives names .statement (opening :: tokens ++ [closing]) [.block commands]
  | expression {semicolon : Token} {tokens : List Token} {phrase : Phrase} :
      Phrase.Derives .expression tokens [phrase] → semicolon.toLexeme = .punctuation ";" →
      Derives names .statement (tokens ++ [semicolon]) [.expression phrase]

namespace Derives

variable {names : Token → DataType → Prop}

theorem opens_block {tokens : List Token} {commands : List Command}
    (derives : Derives names .statement tokens [.block commands]) :
    ∃ opening rest, tokens = opening :: rest ∧ opening.toLexeme = .punctuation "\x7b" := by
  cases derives with
  | block isOpening => exact ⟨_, _, rfl, isOpening⟩

theorem ne_nil {tokens : List Token} {command : Command}
    (derives : Derives names .statement tokens [command]) : tokens ≠ [] := by
  cases derives <;> simp

/-- A derivation needs no more than what its own tokens name. -/
theorem mono {others : Token → DataType → Prop} {symbol : Symbol} {tokens : List Token}
    {commands : List Command} (derives : Derives names symbol tokens commands)
    (named : ∀ token ∈ tokens, ∀ type, names token type → others token type) :
    Derives others symbol tokens commands := by
  induction derives with
  | none => exact .none
  | further _ _ first others =>
      exact .further (first fun token member => named token (by simp [member]))
        (others fun token member => named token (by simp [member]))
  | declared names isName ends => exact .declared (named _ (by simp) _ names) isName ends
  | initialized names isName mark value ends =>
      exact .initialized (named _ (by simp) _ names) isName mark value ends
  | returned word ends => exact .returned word ends
  | returnedValue word value ends => exact .returnedValue word value ends
  | branch word test _ ih =>
      exact .branch word test (ih fun token member => named token (by simp [member]))
  | branchElse word test _ closed other _ first second =>
      exact .branchElse word test (first fun token member => named token (by simp [member])) closed
        other (second fun token member => named token (by simp [member]))
  | whileLoop word test _ ih =>
      exact .whileLoop word test (ih fun token member => named token (by simp [member]))
  | doLoop word _ other test ends ih =>
      exact .doLoop word (ih fun token member => named token (by simp [member])) other test ends
  | breakLoop word ends => exact .breakLoop word ends
  | continueLoop word ends => exact .continueLoop word ends
  | block opening _ closing ih =>
      exact .block opening (ih fun token member => named token (by simp [member])) closing
  | expression derives ends => exact .expression derives ends

end Derives

end Command

end ScalarC
