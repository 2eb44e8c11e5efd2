import ScalarC.Proofs.Phrase.Basic

/-!
The grammar of expressions. A symbol derives tokens together with their
phrases: one phrase for every symbol but `arguments`, which derives as many as
it separates by commas. The binary levels are left-recursive, so operators of
one level associate to the left; an assignment holds a whole expression on its
right. `Derives.opens` says how a phrase can begin, which is what a parser that
looks ahead has to know.
-/

namespace ScalarC

/-- A keyword that names a type. -/
def Token.NamesType (word : Token) (type : DataType) : Prop :=
  word.kind = .keyword ∧ DataType.ofWord? word.text = some type

namespace Phrase

inductive Symbol where
  | expression
  | binary (levels : List (List BinaryOperator))
  | unary
  | primary
  | arguments

inductive Derives : Symbol → List Token → List Phrase → Prop where
  | assignment {name mark : Token} {form : Assignment} {tokens : List Token} {value : Phrase} :
      name.kind = .identifier → Assignment.ofLexeme? mark.toLexeme = some form →
      Derives .expression tokens [value] →
      Derives .expression (name :: mark :: tokens) [.assign name form mark value]
  | operators {tokens : List Token} {phrase : Phrase} :
      Derives (.binary BinaryOperator.levels) tokens [phrase] →
      Derives .expression tokens [phrase]
  | tighter {level : List BinaryOperator} {levels : List (List BinaryOperator)}
      {tokens : List Token} {phrase : Phrase} :
      Derives (.binary levels) tokens [phrase] →
      Derives (.binary (level :: levels)) tokens [phrase]
  | joined {level : List BinaryOperator} {levels : List (List BinaryOperator)} {mark : Token}
      {operator : BinaryOperator} {first second : List Token} {left right : Phrase} :
      Derives (.binary (level :: levels)) first [left] →
      operator ∈ level → mark.toLexeme = .operator operator.symbol →
      Derives (.binary levels) second [right] →
      Derives (.binary (level :: levels)) (first ++ mark :: second)
        [.binary operator mark left right]
  | prefixed {tokens : List Token} {phrase : Phrase} :
      Derives .unary tokens [phrase] → Derives (.binary []) tokens [phrase]
  | negation {mark : Token} {tokens : List Token} {inner : Phrase} :
      mark.toLexeme = .operator "-" → Derives .unary tokens [inner] →
      Derives .unary (mark :: tokens) [.negate mark inner]
  | complement {mark : Token} {tokens : List Token} {inner : Phrase} :
      mark.toLexeme = .operator "!" → Derives .unary tokens [inner] →
      Derives .unary (mark :: tokens) [.complement mark inner]
  | cast {opening word closing : Token} {target : DataType} {tokens : List Token}
      {inner : Phrase} :
      opening.toLexeme = .punctuation "(" → word.NamesType target →
      closing.toLexeme = .punctuation ")" → Derives .unary tokens [inner] →
      Derives .unary (opening :: word :: closing :: tokens) [.cast opening target inner]
  | plain {tokens : List Token} {phrase : Phrase} :
      Derives .primary tokens [phrase] → Derives .unary tokens [phrase]
  | number {token : Token} : token.kind = .number → Derives .primary [token] [.number token]
  | reference {name : Token} :
      name.kind = .identifier → Derives .primary [name] [.reference name]
  | group {opening closing : Token} {tokens : List Token} {inner : Phrase} :
      opening.toLexeme = .punctuation "(" → closing.toLexeme = .punctuation ")" →
      Derives .expression tokens [inner] →
      Derives .primary (opening :: tokens ++ [closing]) [.group opening inner]
  | emptyCall {name opening closing : Token} :
      name.kind = .identifier → opening.toLexeme = .punctuation "(" →
      closing.toLexeme = .punctuation ")" →
      Derives .primary [name, opening, closing] [.call name [] closing]
  | call {name opening closing : Token} {tokens : List Token} {given : List Phrase} :
      name.kind = .identifier → opening.toLexeme = .punctuation "(" →
      closing.toLexeme = .punctuation ")" → Derives .arguments tokens given →
      Derives .primary (name :: opening :: tokens ++ [closing]) [.call name given closing]
  | last {tokens : List Token} {phrase : Phrase} :
      Derives .expression tokens [phrase] → Derives .arguments tokens [phrase]
  | further {comma : Token} {first others : List Token} {phrase : Phrase} {given : List Phrase} :
      Derives .expression first [phrase] → comma.toLexeme = .punctuation "," →
      Derives .arguments others given →
      Derives .arguments (first ++ comma :: others) (phrase :: given)

inductive Opens (token : Token) : Prop where
  | number (kind : token.kind = .number)
  | identifier (kind : token.kind = .identifier)
  | minus (lexeme : token.toLexeme = .operator "-")
  | complement (lexeme : token.toLexeme = .operator "!")
  | parenthesis (lexeme : token.toLexeme = .punctuation "(")

theorem Opens.not_typeWord {token : Token} (opens : Opens token) : token.isTypeWord = false := by
  cases opens <;> simp_all [Lexeme.isTypeWord, Lexeme.operator, Lexeme.punctuation]

theorem Opens.not_closing {token : Token} (opens : Opens token) :
    token.toLexeme ≠ .punctuation ")" := by
  cases opens <;> intro same <;> simp_all

namespace Derives

theorem opens {symbol : Symbol} {tokens : List Token} {phrases : List Phrase}
    (derives : Derives symbol tokens phrases) :
    ∃ phrase others rest,
      phrases = phrase :: others ∧ tokens = phrase.start :: rest ∧ Opens phrase.start := by
  induction derives with
  | assignment named => exact ⟨_, _, _, rfl, rfl, .identifier named⟩
  | operators _ ih | tighter _ ih | prefixed _ ih | plain _ ih | last _ ih => exact ih
  | joined _ _ _ _ ih =>
      obtain ⟨_, _, rest, same, rfl, opens⟩ := ih
      cases same
      exact ⟨_, _, rest ++ _, rfl, rfl, opens⟩
  | negation minus => exact ⟨_, _, _, rfl, rfl, .minus minus⟩
  | complement mark => exact ⟨_, _, _, rfl, rfl, .complement mark⟩
  | cast opening => exact ⟨_, _, _, rfl, rfl, .parenthesis opening⟩
  | number kind => exact ⟨_, _, _, rfl, rfl, .number kind⟩
  | reference named => exact ⟨_, _, _, rfl, rfl, .identifier named⟩
  | group opening => exact ⟨_, _, _, rfl, rfl, .parenthesis opening⟩
  | emptyCall named | call named => exact ⟨_, _, _, rfl, rfl, .identifier named⟩
  | further _ _ _ ih =>
      obtain ⟨_, _, rest, same, rfl, opens⟩ := ih
      cases same
      exact ⟨_, _, rest ++ _, rfl, rfl, opens⟩

theorem start {symbol : Symbol} {tokens : List Token} {phrase : Phrase}
    (derives : Derives symbol tokens [phrase]) :
    (∃ rest, tokens = phrase.start :: rest) ∧ Opens phrase.start := by
  obtain ⟨_, _, rest, same, begins, opens⟩ := derives.opens
  cases same
  exact ⟨⟨rest, begins⟩, opens⟩

theorem of_unary {tokens : List Token} {phrase : Phrase}
    (derives : Derives .unary tokens [phrase]) : Derives .expression tokens [phrase] := by
  have binary (levels : List (List BinaryOperator)) : Derives (.binary levels) tokens [phrase] := by
    induction levels with
    | nil => exact .prefixed derives
    | cons _ _ ih => exact .tighter ih
  exact .operators (binary _)

theorem of_primary {tokens : List Token} {phrase : Phrase}
    (derives : Derives .primary tokens [phrase]) : Derives .expression tokens [phrase] :=
  of_unary (.plain derives)

end Derives

end Phrase

end ScalarC
