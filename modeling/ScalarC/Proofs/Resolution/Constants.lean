import ScalarC.Proofs.Item.Grammar

/-!
Where the word `const` can stand in a program: in front of a global, and nowhere
else. So a token stream alone tells which names were declared constant.
-/

namespace ScalarC

/-- The name behind `const` and a type, wherever the three stand in a token stream. -/
def DeclaredConstant (tokens : List Token) (name : String) : Prop :=
  ∃ before first word token after, tokens = before ++ first :: word :: token :: after ∧
    first.toLexeme = .keyword "const" ∧ token.text = name

/-- No `const` among the tokens. -/
def Plain (tokens : List Token) : Prop :=
  ∀ token ∈ tokens, token.toLexeme ≠ .keyword "const"

@[simp] theorem plain_nil : Plain [] := by
  simp [Plain]

@[simp] theorem plain_cons {token : Token} {tokens : List Token} :
    Plain (token :: tokens) ↔ token.toLexeme ≠ .keyword "const" ∧ Plain tokens :=
  List.forall_mem_cons

@[simp] theorem plain_append {first second : List Token} :
    Plain (first ++ second) ↔ Plain first ∧ Plain second := by
  simp [Plain, or_imp, forall_and]

theorem plain_of_kind {token : Token} {kind : TokenKind} (is : token.kind = kind)
    (other : kind ≠ .keyword) : token.toLexeme ≠ .keyword "const" :=
  fun same => other (is.symm.trans (congrArg Lexeme.kind same))

theorem plain_of_spelled {token : Token} {type : DataType}
    (spelled : DataType.ofWord? token.text = some type) : token.toLexeme ≠ .keyword "const" := by
  intro same
  have text : token.text = "const" := congrArg Lexeme.text same
  rw [text] at spelled
  cases type <;> revert spelled <;> decide

theorem plain_of_assigns {mark : Token} {form : Assignment}
    (assigns : Assignment.ofLexeme? mark.toLexeme = some form) :
    mark.toLexeme ≠ .keyword "const" := by
  rintro same
  rw [same] at assigns
  cases assigns

theorem Phrase.Derives.isPlain {symbol : Phrase.Symbol} {tokens : List Token}
    {phrases : List Phrase} (derives : Phrase.Derives symbol tokens phrases) : Plain tokens := by
  induction derives with
  | assignment named assigns _ ih =>
      simpa [plain_of_kind named (by decide), plain_of_assigns assigns] using ih
  | operators _ ih | tighter _ ih | prefixed _ ih | plain _ ih | last _ ih => exact ih
  | joined _ _ isMark _ left right => simp [isMark, left, right]
  | negation isMark _ ih | complement isMark _ ih => simpa [isMark] using ih
  | cast isOpening names isClosing _ ih =>
      simpa [isOpening, isClosing, plain_of_spelled names.2] using ih
  | number kind | reference kind => simp [plain_of_kind kind (by decide)]
  | group isOpening isClosing _ ih => simpa [isOpening, isClosing] using ih
  | emptyCall named isOpening isClosing =>
      simp [plain_of_kind named (by decide), isOpening, isClosing]
  | call named isOpening isClosing _ ih =>
      simpa [plain_of_kind named (by decide), isOpening, isClosing] using ih
  | further _ isComma _ first others => simp [isComma, first, others]

theorem Command.Condition.isPlain {tokens : List Token} {test : Phrase}
    (condition : Command.Condition tokens test) : Plain tokens := by
  obtain ⟨isOpening, isClosing, derives⟩ := condition
  simp [isOpening, isClosing, derives.isPlain]

theorem Command.Derives.isPlain {symbol : Command.Symbol} {tokens : List Token}
    {commands : List Command} (derives : Command.Derives Token.Declares symbol tokens commands) :
    Plain tokens := by
  induction derives with
  | none => simp
  | further _ _ first others => simp [first, others]
  | declared names named isEnd =>
      simp [plain_of_spelled names.2, plain_of_kind named (by decide), isEnd]
  | initialized names named isMark value isEnd =>
      simp [plain_of_spelled names.2, plain_of_kind named (by decide), isMark, value.isPlain, isEnd]
  | returned isWord isEnd | breakLoop isWord isEnd | continueLoop isWord isEnd =>
      simp [isWord, isEnd]
  | returnedValue isWord value isEnd => simp [isWord, value.isPlain, isEnd]
  | branch isWord test _ ih | whileLoop isWord test _ ih => simp [isWord, test.isPlain, ih]
  | branchElse isWord test _ _ isElse _ first second =>
      simp [isWord, test.isPlain, first, isElse, second]
  | doLoop isWord _ isWhile test isEnd ih => simp [isWord, ih, isWhile, test.isPlain, isEnd]
  | block isOpening _ isClosing ih => simp [isOpening, ih, isClosing]
  | expression phrase isEnd => simp [phrase.isPlain, isEnd]

namespace Item

theorem Value.isPlain {tokens : List Token} {value : Option Literal} (is : Value tokens value) :
    Plain tokens := by
  cases is with
  | none => simp
  | plain isMark isNumber => simp [isMark, plain_of_kind isNumber (by decide)]
  | negative isMark isMinus isNumber =>
      simp [isMark, isMinus, plain_of_kind isNumber (by decide)]

theorem Listed.isPlain {tokens : List Token} {parameters : List (Token × DataType)}
    (listed : Listed Token.Declares tokens parameters) : Plain tokens := by
  induction listed with
  | last names named => simp [plain_of_spelled names.2, plain_of_kind named (by decide)]
  | further names named isComma _ ih =>
      simp [plain_of_spelled names.2, plain_of_kind named (by decide), isComma, ih]

theorem Parameters.isPlain {tokens : List Token} {parameters : List (Token × DataType)}
    (given : Parameters Token.Declares tokens parameters) : Plain tokens := by
  cases given with
  | none => simp
  | void isVoid => simp [isVoid]
  | listed listed => exact listed.isPlain

/-- Only a constant begins with `const`, which stands nowhere else. -/
theorem Derives.plain_or_constant {tokens : List Token} {item : Item}
    (derives : Derives Token.Declares tokens item) :
    Plain tokens ∨ ∃ first word name rest type value, tokens = first :: word :: name :: rest ∧
      Plain (word :: name :: rest) ∧ item = .global true type name value := by
  cases derives with
  | global names named value isEnd =>
      left
      simp [plain_of_spelled names.2, plain_of_kind named (by decide), value.isPlain, isEnd]
  | constant isConst names named value isEnd =>
      right
      refine ⟨_, _, _, _, _, _, rfl, ?_, rfl⟩
      simp [plain_of_spelled names.2, plain_of_kind named (by decide), value.isPlain, isEnd]
  | @function word _ _ _ _ _ _ _ _ _ _ returns named isOpening given isClosing isLeft body
      isRight =>
      left
      have header : word.toLexeme ≠ .keyword "const" := by
        cases returns with
        | void isVoid => simp [isVoid]
        | type names => exact plain_of_spelled names.2
      simp [header, plain_of_kind named (by decide), isOpening, given.isPlain, isClosing, isLeft,
        body.isPlain, isRight]

end Item

/-- A name behind `const` is that of a constant, whatever plain tokens are behind the program. -/
theorem Program.Derives.constant_of_declared {tokens : List Token} {items : List Item}
    (derives : Program.Derives Token.Declares tokens items) {rest : List Token}
    (behind : Plain rest) {name : String} (declared : DeclaredConstant (tokens ++ rest) name) :
    ∃ type token value, .global true type token value ∈ items ∧ token.text = name := by
  obtain ⟨before, first, word, token, after, same, isConst, rfl⟩ := declared
  induction derives generalizing before with
  | nil => exact absurd isConst (behind first (by simp_all))
  | @cons own others item items derives _ ih =>
      have later (inner : List Token)
          (split : others ++ rest = inner ++ first :: word :: token :: after) :
          ∃ type name value, Item.global true type name value ∈ item :: items ∧
            name.text = token.text := by
        obtain ⟨type, name, value, member, text⟩ := ih inner split
        exact ⟨type, name, value, by simp [member], text⟩
      rw [List.append_assoc] at same
      rcases List.append_eq_append_iff.mp same with ⟨inner, _, split⟩ | ⟨inner, begins, split⟩
      · exact later inner split
      -- The `const` is one of the item's own tokens, unless the item ends before it.
      cases inner with
      | nil => exact later [] (by simpa using split.symm)
      | cons head inner =>
          obtain ⟨rfl, split⟩ := List.cons.inj split
          rcases derives.plain_or_constant with plain | ⟨_, _, name, more, type, value, spread,
            plain, rfl⟩
          · exact absurd isConst (plain first (by simp [begins]))
          · rw [begins] at spread
            cases before with
            | nil =>
                simp only [List.nil_append, List.cons.injEq] at spread
                obtain ⟨rfl, rfl⟩ := spread
                simp only [List.cons_append, List.cons.injEq] at split
                obtain ⟨_, _, rfl, _⟩ := split
                exact ⟨type, token, value, by simp, rfl⟩
            | cons other before =>
                simp only [List.cons_append, List.cons.injEq] at spread
                exact absurd isConst (plain first (by simp [← spread.2]))

end ScalarC
