import ScalarC.Proofs.Item.Completeness
import ScalarC.Proofs.Numbers.Denotation
import ScalarC.Proofs.Spelling.Joining

/-!
No program of the grammar is malformed. Here an `else` may belong to any `if`
before it, so the grammar is that of the documents, and the parser's own choice
has to be one of those it leaves open. Two faults remain, which no grammar of
texts excludes: a constant without a value and a jump outside of all loops.
-/

namespace ScalarC

/-- The grammar of items without a rule for the `else` behind several `if`s. -/
inductive Item.Generates (names : Token → DataType → Prop) : List Token → Item → Prop where
  | strict {tokens : List Token} {item : Item} :
      item.Derives names tokens → Generates names tokens item
  | function {word name opening closing left right : Token} {returnType : Option DataType}
      {given tokens : List Token} {parameters : List (Token × DataType)} {body : List Command} :
      Returns names word returnType → name.kind = .identifier →
      opening.toLexeme = .punctuation "(" → Parameters names given parameters →
      closing.toLexeme = .punctuation ")" → left.toLexeme = .punctuation "\x7b" →
      Command.Generates names .sequence tokens body → right.toLexeme = .punctuation "\x7d" →
      Generates names (word :: name :: opening :: given ++ closing :: left :: tokens ++ [right])
        (.function returnType name parameters body)

theorem Item.Generates.derives {names : Token → DataType → Prop} {tokens : List Token} {item : Item}
    (generates : item.Generates names tokens) :
    ∃ strict : Item, strict.Derives names tokens ∧
      ∀ fault, strict.Excuses fault → item.Excuses fault := by
  cases generates with
  | strict derives => exact ⟨_, derives, fun _ => id⟩
  | function returns isName isOpening isList isClosing isLeft generates isRight =>
      obtain ⟨body, derives, _, strays⟩ := generates.derives
      refine ⟨_, .function returns isName isOpening isList isClosing isLeft derives isRight, ?_⟩
      rintro _ (_ | stray)
      exact .jump (strays _ stray)

namespace Program

inductive Generates (names : Token → DataType → Prop) : List Token → List Item → Prop where
  | nil : Generates names [] []
  | cons {first others : List Token} {item : Item} {items : List Item} :
      item.Generates names first → Generates names others items →
      Generates names (first ++ others) (item :: items)

def Excuses (items : List Item) (fault : GrammarFault) : Prop :=
  ∃ item ∈ items, item.Excuses fault

theorem Generates.derives {names : Token → DataType → Prop} {tokens : List Token}
    {items : List Item} (generates : Generates names tokens items) :
    ∃ strict, Derives names tokens strict ∧
      ∀ fault, Excuses strict fault → Excuses items fault := by
  induction generates with
  | nil => exact ⟨[], .nil, fun _ => id⟩
  | cons first _ ih =>
      obtain ⟨item, derives, excuses⟩ := first.derives
      obtain ⟨items, derived, excused⟩ := ih
      refine ⟨item :: items, .cons derives derived, fun fault => ?_⟩
      simp only [Excuses, List.exists_mem_cons_iff]
      exact Or.imp (excuses fault) (excused fault)

end Program

theorem Token.NamesType.declares {word : Token} {type : DataType} (names : word.NamesType type) :
    word.Declares type :=
  ⟨.inl names.1, names.2⟩

theorem Lexeme.Spelled.tolerated {lexeme : Lexeme} (spelled : lexeme.Spelled)
    (isNumber : lexeme.kind = .number) (allowed : ParseError → Prop) :
    Literal.Tolerated allowed lexeme.text := by
  cases spelled with
  | number isNumeral =>
      intro fractional unread
      have value := Scanner.read?_of_numeral isNumeral fractional
      simp [unread] at value
  | keyword | identifier | operator | punctuation => cases isNumber

theorem Lexeme.Spelled.real {lexeme : Lexeme} (spelled : lexeme.Spelled) :
    lexeme.kind ≠ .endOfInput := by
  cases spelled <;> nofun

/-- What remains of the errors of items that the grammar derives. -/
def Program.Answers (items : List Item) (error : ParseError) : Prop :=
  error.IsSemantic ∨ ∃ fault place, error = .malformed fault place ∧ Excuses items fault

theorem Program.Derives.answers {tokens : List Token} {items : List Item}
    (derives : Derives Token.Declares tokens items)
    (spelled : ∀ token ∈ tokens, token.toLexeme.Spelled) {finish : Token}
    (closes : finish.kind = .endOfInput) {error : ParseError}
    (failed : parse (tokens ++ [finish]) = .error error) : Answers items error := by
  obtain ⟨effect, does⟩ := derives.does
  have admissible : Admissible (Answers items) _ (effect Scope.empty) :=
    does.admits (fun _ => .inl)
      (fun token member isNumber => (spelled token member).tolerated isNumber _)
      (fun item member fault excused place =>
        .inr ⟨fault, place, rfl, item, member, excused⟩) Scope.empty
  have done : effect Scope.empty = .error error := by
    rw [does.parse_all closes fun token member => (spelled token member).real] at failed
    cases done : effect Scope.empty with
    | ok found => simp [done] at failed
    | error raised => simpa [done] using failed
  exact admissible.error done

/-- A source that the grammar derives is a program or has an error of its names or types, but for
a constant without a value and a jump outside of all loops. -/
theorem parse_generated {source : String} {tokens : List Token} {items : List Item}
    (read : tokenize source = .ok tokens)
    (generates : Program.Generates Token.NamesType tokens.dropLast items) :
    (∃ module, parse tokens = .ok module) ∨
      (∃ error, parse tokens = .error error ∧ error.IsSemantic) ∨
      ∃ fault place, parse tokens = .error (.malformed fault place) ∧
        Program.Excuses items fault := by
  obtain ⟨scanned, finish, rfl, ends, spelled⟩ :=
    (cut_of_tokens (Scanner.ofString source) [] tokens rfl read).spelled
  rw [List.dropLast_concat] at generates
  obtain ⟨strict, derives, excuses⟩ := generates.derives
  have declares := derives.mono fun _ _ _ names => Token.NamesType.declares names
  cases parsed : parse (scanned ++ [finish]) with
  | ok module => exact .inl ⟨module, rfl⟩
  | error error =>
      rcases declares.answers spelled (congrArg Lexeme.kind ends) parsed with
        semantic | ⟨fault, place, rfl, excused⟩
      · exact .inr (.inl ⟨error, rfl, semantic⟩)
      · exact .inr (.inr ⟨fault, place, rfl, excuses fault excused⟩)

section Sample

private def nested : List Token :=
  let at_ (column : Nat) (lexeme : Lexeme) : Token := ⟨lexeme, ⟨1, column⟩⟩
  [at_ 1 (.keyword "void"), at_ 6 ⟨.identifier, "f"⟩, at_ 7 (.punctuation "("),
    at_ 8 (.punctuation ")"), at_ 10 (.punctuation "\x7b"), at_ 12 (.keyword "if"),
    at_ 15 (.punctuation "("), at_ 16 ⟨.number, "1"⟩, at_ 17 (.punctuation ")"),
    at_ 19 (.keyword "if"), at_ 22 (.punctuation "("), at_ 23 ⟨.number, "2"⟩,
    at_ 24 (.punctuation ")"), at_ 26 (.keyword "return"), at_ 32 (.punctuation ";"),
    at_ 34 (.keyword "else"), at_ 39 (.keyword "return"), at_ 45 (.punctuation ";"),
    at_ 47 (.punctuation "\x7d"), at_ 48 .endOfInput]

private theorem number_condition {opening number closing : Token}
    (isOpening : opening.toLexeme = .punctuation "(") (isNumber : number.kind = .number)
    (isClosing : closing.toLexeme = .punctuation ")") :
    Command.Condition [opening, number, closing] (.number number) :=
  .intro isOpening isClosing (.of_primary (.number isNumber))

private theorem nested_generated : ∃ item,
    Program.Generates Token.NamesType nested.dropLast [item] := by
  have inner : Command.Generates Token.NamesType .statement ((nested.drop 9).take 6) _ :=
    .strict (.branch rfl (number_condition rfl rfl rfl) (.returned rfl rfl))
  have whole : Command.Generates Token.NamesType .statement ((nested.drop 5).take 13) _ :=
    .branchElse rfl (number_condition rfl rfl rfl) inner rfl (.strict (.returned rfl rfl))
  have body := Command.Generates.further whole (.strict .none)
  have function : Item.Generates Token.NamesType nested.dropLast _ :=
    .function (.void rfl) rfl rfl .none rfl rfl body rfl
  exact ⟨_, .cons function .nil⟩

theorem nested_parsed : ∃ item,
    tokenize "void f() \x7b if (1) if (2) return; else return; \x7d" = .ok nested ∧
    Program.Generates Token.NamesType nested.dropLast [item] ∧
    ((∃ module, parse nested = .ok module) ∨
      (∃ error, parse nested = .error error ∧ error.IsSemantic) ∨
      ∃ fault place, parse nested = .error (.malformed fault place) ∧
        Program.Excuses [item] fault) := by
  have read : tokenize "void f() \x7b if (1) if (2) return; else return; \x7d" = .ok nested :=
    toOption_eq_some.mp (by decide +kernel)
  obtain ⟨item, generates⟩ := nested_generated
  exact ⟨item, read, generates, parse_generated read generates⟩

end Sample

end ScalarC
