import ScalarC.Proofs.Item.Completeness

/-!
Functions are checked separately. What stands behind an accepted function is
read in a state that its name and its types determine, so two functions that
agree in these can be exchanged: the parameters, the locals and the body of one
show nowhere but in its own node.
-/

namespace ScalarC

open Parse

theorem Closed.of_accepted {tokens : List Token} {finish : Token} {module : Node}
    (parsed : parse (tokens ++ [finish]) = .ok module) : Closed tokens finish := by
  obtain ⟨read, last, _, _, _, same, closed, _⟩ := parse_reads parsed
  obtain ⟨rfl, ends⟩ := List.append_inj' same rfl
  cases ends
  exact closed

namespace Program

/-- An item is read in the scope of those before it, and what is behind it in its own. -/
theorem Does.parse_through {before tokens rest : List Token} {items : List Item} {item : Item}
    {effect : Effect} {single : Item.Effect} (prior : Does before items effect)
    (one : item.Does tokens single) (some : tokens ≠ []) {finish : Token}
    (closes : finish.kind = .endOfInput)
    (inner : ∀ token ∈ before ++ tokens ++ rest, token.kind ≠ .endOfInput) {bound : Nat}
    (enough : (before ++ tokens ++ rest).length ≤ bound) :
    parse (before ++ tokens ++ rest ++ [finish]) = effect Scope.empty >>= fun known =>
      single known.2 >>= fun found => outcome (Program.declarations bound)
        ((State.before rest finish closes).past rest found.2) >>= fun others =>
          .ok ⟨.module, none, none, known.1 ++ found.1 :: others.1⟩ := by
  rw [List.append_assoc before] at inner enough ⊢
  have alone : Does (tokens ++ []) [item] (.further single fun scope => .ok ([], scope)) :=
    does_cons some one does_nil
  have ran (scope : Scope) : outcome (Program.declarations bound)
      ((State.before (tokens ++ rest) finish closes).past (tokens ++ rest) scope) = _ :=
    alone.declarations rfl rfl (show tokens ++ rest = tokens ++ [] ++ rest by simp)
      (show (tokens ++ rest).length ≤ bound by simp at enough ⊢; omega)
  rw [prior.parse_append closes inner enough]
  simp [ran, Effect.further]
  rfl

theorem Does.of_accepted {before tokens : List Token} {items : List Item} {item : Item}
    {effect : Effect} {single : Item.Effect} (prior : Does before items effect)
    (one : item.Does tokens single) (some : tokens ≠ []) {finish : Token} {module : Node}
    (accepted : parse (before ++ tokens ++ [finish]) = .ok module) :
    ∃ known found, effect Scope.empty = .ok known ∧ single known.2 = .ok found ∧
      item.Leaves known.2 found ∧ module = ⟨.module, none, none, known.1 ++ [found.1]⟩ := by
  obtain ⟨closes, inner⟩ := Closed.of_accepted accepted
  have through := prior.parse_through one some closes
    (show ∀ token ∈ before ++ tokens ++ [], _ by simpa using inner) (Nat.le_refl _)
  rw [List.append_nil, accepted] at through
  obtain ⟨known, done, through⟩ := bind_eq_ok.mp through.symm
  obtain ⟨found, ran, through⟩ := bind_eq_ok.mp through
  have leaves : Admissible (fun _ => True) (item.Leaves known.2) (single known.2) :=
    one.admits (fun _ _ => .intro) (fun _ _ _ _ _ _ => .intro) (fun _ _ _ => .intro) known.2
  rw [ran] at leaves
  simp only [declarations_nothing _ (State.past_unread _ _ _), ok_bind, Except.ok.injEq] at through
  exact ⟨known, found, done, ran, leaves, through.symm⟩

/-- The same error twice, or two trees that differ in one node. -/
inductive DifferIn (known : List Node) (left right : Node) :
    Except ParseError Node → Except ParseError Node → Prop where
  | error (error : ParseError) : DifferIn known left right (.error error) (.error error)
  | ok (behind : List Node) :
      DifferIn known left right (.ok ⟨.module, none, none, known ++ left :: behind⟩)
        (.ok ⟨.module, none, none, known ++ right :: behind⟩)

end Program

/-- Accepted functions of one name and the same types can be exchanged in front of any tokens: the
answer is the same but for the node of the function. -/
theorem parse_separate {before first second rest : List Token} {items : List Item}
    {returnType : Option DataType} {name other : Token}
    {parameters others : List (Token × DataType)} {body further : List Command}
    {finish closing ending : Token} {one two : Node}
    (prior : Program.Derives Token.Declares before items)
    (derives : Item.Derives Token.Declares first (.function returnType name parameters body))
    (derived : Item.Derives Token.Declares second (.function returnType other others further))
    (named : name.text = other.text) (typed : parameters.map Prod.snd = others.map Prod.snd)
    (accepted : parse (before ++ first ++ [closing]) = .ok one)
    (exchanged : parse (before ++ second ++ [ending]) = .ok two) (closed : Closed rest finish) :
    ∃ known left right,
      one = ⟨.module, none, none, known ++ [left]⟩ ∧
      two = ⟨.module, none, none, known ++ [right]⟩ ∧
      (left.tag = .function ∧ left.value = some (.name name.text)) ∧
      (right.tag = .function ∧ right.value = some (.name name.text)) ∧
      Program.DifferIn known left right (parse (before ++ first ++ rest ++ [finish]))
        (parse (before ++ second ++ rest ++ [finish])) := by
  obtain ⟨effect, does⟩ := prior.does
  obtain ⟨single, here⟩ := derives.does
  obtain ⟨instead, there⟩ := derived.does
  obtain ⟨known, left, done, ran, leaves, rfl⟩ := does.of_accepted here derives.ne_nil accepted
  obtain ⟨same, right, agrees, replaced, leavesOther, rfl⟩ :=
    does.of_accepted there derived.ne_nil exchanged
  obtain rfl : known = same := by simpa [done] using agrees
  have scopes : left.2 = right.2 := by
    rw [leaves.exports, leavesOther.exports, Item.exports, Item.exports, named, typed]
  refine ⟨known.1, left.1, right.1, rfl, rfl, ⟨leaves.tag, leaves.name⟩,
    ⟨leavesOther.tag, leavesOther.name.trans (by rw [named]; rfl)⟩, ?_⟩
  have inner {tokens : List Token} {last : Token} (ends : Closed (before ++ tokens) last) :
      ∀ token ∈ before ++ tokens ++ rest, token.kind ≠ .endOfInput :=
    List.forall_mem_append.mpr ⟨ends.2, closed.2⟩
  -- One bound for both programs, so the rest is read by the same run.
  have enough := Nat.le_max_left (before ++ first ++ rest).length (before ++ second ++ rest).length
  have also := Nat.le_max_right (before ++ first ++ rest).length (before ++ second ++ rest).length
  rw [does.parse_through here derives.ne_nil closed.1 (inner (.of_accepted accepted)) enough,
    does.parse_through there derived.ne_nil closed.1 (inner (.of_accepted exchanged)) also, done,
    ok_bind, ok_bind, ran, replaced, ok_bind, ok_bind, scopes]
  cases outcome (Program.declarations _) _ with
  | error error => exact .error error
  | ok behind => exact .ok behind.1

section Sample

private def keyword (word : String) : Token := (Lexeme.keyword word).token

private def identifier (name : String) : Token := Lexeme.token ⟨.identifier, name⟩

private def mark (text : String) : Token := (Lexeme.punctuation text).token

/-- The tokens of `int n;`, which one of the functions hides and the last one reads. -/
private def hidden : List Token := [keyword "int", identifier "n", mark ";"]

/-- The tokens of `int f(int a) {return a;}`. -/
private def returning : List Token :=
  [keyword "int", identifier "f", mark "(", keyword "int", identifier "a", mark ")", mark "\x7b",
    keyword "return", identifier "a", mark ";", mark "\x7d"]

/-- The tokens of `int f(int n) {while (n) n = f(n); return n;}`. -/
private def looping : List Token :=
  [keyword "int", identifier "f", mark "(", keyword "int", identifier "n", mark ")", mark "\x7b",
    keyword "while", mark "(", identifier "n", mark ")", identifier "n",
    (Lexeme.operator "=").token, identifier "f", mark "(", identifier "n", mark ")", mark ";",
    keyword "return", identifier "n", mark ";", mark "\x7d"]

/-- The tokens of `int g() {return f(n);}`. -/
private def reading : List Token :=
  [keyword "int", identifier "g", mark "(", mark ")", mark "\x7b", keyword "return",
    identifier "f", mark "(", identifier "n", mark ")", mark ";", mark "\x7d"]

private theorem names_int : (keyword "int").Declares .i32 := ⟨.inl rfl, rfl⟩

private theorem hidden_derives : ∃ items, Program.Derives Token.Declares hidden items := by
  have global : Item.Derives Token.Declares hidden _ := .global names_int rfl .none rfl
  exact ⟨_, .cons global .nil⟩

private theorem returning_derives : ∃ body, Item.Derives Token.Declares returning
    (.function (some .i32) (identifier "f") [(identifier "a", .i32)] body) := by
  have given : Item.Parameters Token.Declares ((returning.drop 3).take 2) _ :=
    .listed (.last names_int rfl)
  have value : Command.Derives Token.Declares .statement ((returning.drop 7).take 3) _ :=
    .returnedValue rfl (.of_primary (.reference rfl)) rfl
  have body := Command.Derives.further value .none
  exact ⟨_, .function (.type names_int) rfl rfl given rfl rfl body rfl⟩

private theorem looping_derives : ∃ body, Item.Derives Token.Declares looping
    (.function (some .i32) (identifier "f") [(identifier "n", .i32)] body) := by
  have given : Item.Parameters Token.Declares ((looping.drop 3).take 2) _ :=
    .listed (.last names_int rfl)
  have test : Command.Condition ((looping.drop 8).take 3) _ :=
    .intro rfl rfl (.of_primary (.reference rfl))
  have call : Phrase.Derives .primary ((looping.drop 13).take 4) _ :=
    .call rfl rfl rfl (.last (.of_primary (.reference rfl)))
  have assignment : Command.Derives Token.Declares .statement ((looping.drop 11).take 7) _ :=
    .expression (.assignment rfl rfl (.of_primary call)) rfl
  have loop : Command.Derives Token.Declares .statement ((looping.drop 7).take 11) _ :=
    .whileLoop rfl test assignment
  have value : Command.Derives Token.Declares .statement ((looping.drop 18).take 3) _ :=
    .returnedValue rfl (.of_primary (.reference rfl)) rfl
  have body := Command.Derives.further loop (.further value .none)
  exact ⟨_, .function (.type names_int) rfl rfl given rfl rfl body rfl⟩

theorem looping_separate : ∃ one two known left right,
    parse (hidden ++ returning ++ [Lexeme.endOfInput.token]) = .ok one ∧
      parse (hidden ++ looping ++ [Lexeme.endOfInput.token]) = .ok two ∧
      one = ⟨.module, none, none, known ++ [left]⟩ ∧
      two = ⟨.module, none, none, known ++ [right]⟩ ∧
      (parse (hidden ++ looping ++ reading ++ [Lexeme.endOfInput.token])).toOption.isSome ∧
      Program.DifferIn known left right
        (parse (hidden ++ returning ++ reading ++ [Lexeme.endOfInput.token]))
        (parse (hidden ++ looping ++ reading ++ [Lexeme.endOfInput.token])) := by
  obtain ⟨_, prior⟩ := hidden_derives
  obtain ⟨_, derives⟩ := returning_derives
  obtain ⟨_, derived⟩ := looping_derives
  obtain ⟨one, accepted⟩ : ∃ one,
      (parse (hidden ++ returning ++ [Lexeme.endOfInput.token])).toOption = some one :=
    Option.isSome_iff_exists.mp (by decide +kernel)
  obtain ⟨two, exchanged⟩ : ∃ two,
      (parse (hidden ++ looping ++ [Lexeme.endOfInput.token])).toOption = some two :=
    Option.isSome_iff_exists.mp (by decide +kernel)
  rw [toOption_eq_some] at accepted exchanged
  obtain ⟨known, left, right, first, second, _, _, same⟩ :=
    parse_separate prior derives derived rfl rfl accepted exchanged
      (show Closed reading Lexeme.endOfInput.token from ⟨rfl, by decide⟩)
  exact ⟨one, two, known, left, right, accepted, exchanged, first, second, by decide +kernel, same⟩

end Sample

end ScalarC
