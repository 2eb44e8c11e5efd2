import ScalarC.Proofs.Command.Grammar
import ScalarC.Proofs.Item.Basic

/-!
The grammar of declarations and of whole programs, with the tokens that name a
type as a parameter like the grammar of statements.
-/

namespace ScalarC

namespace Item

/-- What can stand between the name of a global and its semicolon. -/
inductive Value : List Token → Option Literal → Prop where
  | none : Value [] none
  | plain {mark number : Token} :
      mark.toLexeme = .operator "=" → number.kind = .number →
      Value [mark, number] (some ⟨number.text, false, number.location⟩)
  | negative {mark minus number : Token} :
      mark.toLexeme = .operator "=" → minus.toLexeme = .operator "-" → number.kind = .number →
      Value [mark, minus, number] (some ⟨number.text, true, number.location⟩)

section Names

variable (names : Token → DataType → Prop)

inductive Returns : Token → Option DataType → Prop where
  | void {word : Token} : word.toLexeme = .keyword "void" → Returns word none
  | type {word : Token} {type : DataType} : names word type → Returns word (some type)

inductive Listed : List Token → List (Token × DataType) → Prop where
  | last {word name : Token} {type : DataType} :
      names word type → name.kind = .identifier → Listed [word, name] [(name, type)]
  | further {word name comma : Token} {type : DataType} {tokens : List Token}
      {parameters : List (Token × DataType)} :
      names word type → name.kind = .identifier → comma.toLexeme = .punctuation "," →
      Listed tokens parameters →
      Listed (word :: name :: comma :: tokens) ((name, type) :: parameters)

inductive Parameters : List Token → List (Token × DataType) → Prop where
  | none : Parameters [] []
  | void {word : Token} : word.toLexeme = .keyword "void" → Parameters [word] []
  | listed {tokens : List Token} {parameters : List (Token × DataType)} :
      Listed names tokens parameters → Parameters tokens parameters

inductive Derives : List Token → Item → Prop where
  | global {word name semicolon : Token} {type : DataType} {tokens : List Token}
      {value : Option Literal} :
      names word type → name.kind = .identifier → Value tokens value →
      semicolon.toLexeme = .punctuation ";" →
      Derives (word :: name :: tokens ++ [semicolon]) (.global false type name value)
  | constant {first word name semicolon : Token} {type : DataType} {tokens : List Token}
      {value : Option Literal} :
      first.toLexeme = .keyword "const" → names word type → name.kind = .identifier →
      Value tokens value → semicolon.toLexeme = .punctuation ";" →
      Derives (first :: word :: name :: tokens ++ [semicolon]) (.global true type name value)
  | function {word name opening closing left right : Token} {returnType : Option DataType}
      {given tokens : List Token} {parameters : List (Token × DataType)} {body : List Command} :
      Returns names word returnType → name.kind = .identifier →
      opening.toLexeme = .punctuation "(" → Parameters names given parameters →
      closing.toLexeme = .punctuation ")" → left.toLexeme = .punctuation "\x7b" →
      Command.Derives names .sequence tokens body → right.toLexeme = .punctuation "\x7d" →
      Derives (word :: name :: opening :: given ++ closing :: left :: tokens ++ [right])
        (.function returnType name parameters body)

end Names

variable {names others : Token → DataType → Prop}

theorem Derives.ne_nil {tokens : List Token} {item : Item} (derives : Derives names tokens item) :
    tokens ≠ [] := by
  cases derives <;> simp

theorem Listed.mono {tokens : List Token} {parameters : List (Token × DataType)}
    (listed : Listed names tokens parameters)
    (named : ∀ token ∈ tokens, ∀ type, names token type → others token type) :
    Listed others tokens parameters := by
  induction listed with
  | last names isName => exact .last (named _ (by simp) _ names) isName
  | further names isName isComma _ ih =>
      exact .further (named _ (by simp) _ names) isName isComma
        (ih fun token member => named token (by simp [member]))

theorem Derives.mono {tokens : List Token} {item : Item} (derives : Derives names tokens item)
    (named : ∀ token ∈ tokens, ∀ type, names token type → others token type) :
    Derives others tokens item := by
  cases derives with
  | global names isName value ends =>
      exact .global (named _ (by simp) _ names) isName value ends
  | constant isConst names isName value ends =>
      exact .constant isConst (named _ (by simp) _ names) isName value ends
  | function returns isName opening given closing left body right =>
      have body := body.mono fun token member => named token (by simp [member])
      refine .function ?_ isName opening ?_ closing left body right
      · cases returns with
        | void isVoid => exact .void isVoid
        | type names => exact .type (named _ (by simp) _ names)
      · cases given with
        | none => exact .none
        | void isVoid => exact .void isVoid
        | listed listed =>
            exact .listed (listed.mono fun token member => named token (by simp [member]))

end Item

inductive Program.Derives (names : Token → DataType → Prop) : List Token → List Item → Prop where
  | nil : Derives names [] []
  | cons {first others : List Token} {item : Item} {items : List Item} :
      item.Derives names first → Derives names others items →
      Derives names (first ++ others) (item :: items)

theorem Program.Derives.mono {names others : Token → DataType → Prop} {tokens : List Token}
    {items : List Item} (derives : Program.Derives names tokens items)
    (named : ∀ token ∈ tokens, ∀ type, names token type → others token type) :
    Program.Derives others tokens items := by
  induction derives with
  | nil => exact .nil
  | cons first _ ih =>
      exact .cons (first.mono fun token member => named token (by simp [member]))
        (ih fun token member => named token (by simp [member]))

end ScalarC
