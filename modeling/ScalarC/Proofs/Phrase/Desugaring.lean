import ScalarC.Proofs.Numbers.Denotation
import ScalarC.Proofs.Phrase.Faults
import ScalarC.Proofs.Phrase.Stopping
import ScalarC.Proofs.Twins.Layout

/-!
A compound assignment stores what the plain one stores that spells its operator out
between the variable and the value in parentheses. The two are read on different
ways, one past all levels of operators and one through them, and mean the same but
for the places of their errors.
-/

namespace ScalarC

open Parse

/-- The same value, or the same error, which may be at another place. -/
inductive SameElsewhere {α : Type} : Except ParseError α → Except ParseError α → Prop where
  | value (value : α) : SameElsewhere (.ok value) (.ok value)
  | error (error : ParseError) (place : Location) :
      SameElsewhere (.error error) (.error (error.moved place))

namespace SameElsewhere

variable {α β : Type}

theorem refl (result : Except ParseError α) : SameElsewhere result result := by
  cases result with
  | ok value => exact .value value
  | error error =>
      have stays : error.moved error.location = error := by cases error <;> rfl
      simpa [stays] using SameElsewhere.error (α := α) error error.location

theorem bind {first second : Except ParseError α} {next further : α → Except ParseError β}
    (same : SameElsewhere first second)
    (onward : ∀ value, SameElsewhere (next value) (further value)) :
    SameElsewhere (first >>= next) (second >>= further) := by
  cases same with
  | value value => exact onward value
  | error error place => exact .error error place

theorem test {choice : Prop} [Decidable choice] (value : α) (error : ParseError)
    (place : Location) :
    SameElsewhere (if choice then .ok value else .error error)
      (if choice then .ok value else .error (error.moved place)) := by
  split
  · exact .value value
  · exact .error error place

end SameElsewhere

/-! The place of an operator is in its errors only. -/

theorem Node.valueType_elsewhere (node : Node) (operator : String) (place other : Location) :
    SameElsewhere (node.valueType operator place) (node.valueType operator other) := by
  unfold Node.valueType
  split
  · exact .value _
  · exact .error _ other

theorem Arithmetic.node_elsewhere (operator : Arithmetic) (type : DataType) (left right : Node)
    (place other : Location) :
    SameElsewhere (operator.node type left right place) (operator.node type left right other) := by
  unfold Arithmetic.node
  split
  · exact .error _ other
  · exact .value _

theorem Operand.unify_elsewhere (operator : String) (place other : Location)
    (left right : Operand) :
    SameElsewhere (unify operator place left right) (unify operator other left right) := by
  have valueType (node : Node) := node.valueType_elsewhere operator place other
  cases left with
  | typed left =>
      cases right with
      | typed right =>
          refine (valueType left).bind fun first => (valueType right).bind fun second => ?_
          exact .test _ (.typeMismatch (.operandsDiffer operator first second) place) other
      | pending right => exact (valueType left).bind fun _ => .refl _
  | pending left =>
      cases right with
      | typed right => exact (valueType right).bind fun _ => .refl _
      | pending right => exact .refl _

theorem Operand.settle_elsewhere (found : Operand) (expected : DataType) (context : String)
    (place other : Location) :
    SameElsewhere (found.settle expected context place) (found.settle expected context other) := by
  refine SameElsewhere.bind (.refl _) fun node => SameElsewhere.bind ?_ fun _ => .refl _
  exact .test () (.typeMismatch (.unexpectedType context expected node.type) place) other

/-- Beside a typed operand nothing stays pending, so no place is kept. -/
theorem Operand.arithmetic_elsewhere (operator : Arithmetic) (place other : Location) (left : Node)
    (right : Operand) :
    SameElsewhere (arithmetic operator place (.typed left) right)
      (arithmetic operator other (.typed left) right) := by
  refine (unify_elsewhere operator.symbol place other (.typed left) right).bind fun sides => ?_
  exact (operator.node_elsewhere ..).bind fun _ => .refl _

namespace Phrase

theorem assign_elsewhere {scope : Scope} {operator : Arithmetic} {name target source : Token}
    (sameTarget : target.text = name.text) (sameSource : source.text = name.text)
    {mark equals sign opening : Token} {value : Phrase} {found : Operand}
    (meaning : value.operand scope = .ok found) :
    SameElsewhere ((assign name (.compound operator) mark value).operand scope)
      ((assign target .plain equals (binary (.arithmetic operator) sign (reference source)
        (group opening value))).operand scope) := by
  simp only [operand, sameTarget, sameSource, meaning, ok_bind]
  unfold Scope.lookup
  cases scope.find? name.text with
  | none => exact .error _ _
  | some known =>
      simp only [ok_bind]
      split
      · exact .error _ _
      · simp only [Assignment.stored, Operand.binary, bind_assoc]
        refine (Operand.arithmetic_elsewhere ..).bind fun combined => ?_
        exact (Operand.settle_elsewhere ..).bind fun _ => .refl _

/-! An operator between two operands, and the levels around it. -/

section Levels

variable {parser : Parse Operand} {state : State} {phrase : Phrase} {rest : List Token}

theorem parses_looser {tighter : List (List BinaryOperator)}
    (parses : Parses (Expression.levels parser tighter) state phrase rest)
    {looser : List (List BinaryOperator)} (free : (state.behind rest).next.JoinsNothing looser) :
    Parses (Expression.levels parser (looser ++ tighter)) state phrase rest := by
  induction looser with
  | nil => exact parses
  | cons level looser ih =>
      obtain ⟨here, others⟩ := List.forall_mem_cons.mp free
      have inner := ih others
      rw [Parses] at inner
      simp [Parses, Expression.levels, inner, chain_ends here]

theorem primary_at_levels {tokens : List Token} (derives : Derives .primary tokens [phrase])
    (unread : state.unread = tokens ++ rest)
    (parses : Parses (Expression.primary parser) state phrase rest)
    {levels : List (List BinaryOperator)} (free : (state.behind rest).next.JoinsNothing levels) :
    Parses (Expression.levels parser levels) state phrase rest := by
  have unary := plain_parses derives unread parses state.unread.length
  have alone : Parses (Expression.levels parser []) state phrase rest := by
    rw [Parses] at unary ⊢
    simp [Expression.levels, unary]
  simpa using parses_looser alone free

theorem joined_parses {level : List BinaryOperator} {tighter : List (List BinaryOperator)}
    (inTable : level ∈ BinaryOperator.levels) {operator : BinaryOperator}
    (member : operator ∈ level) {mark : Token}
    (isMark : mark.toLexeme = .operator operator.symbol) {left right : Phrase}
    {others : List Token}
    (first : Parses (Expression.levels parser tighter) state left (mark :: others))
    (second : Parses (Expression.levels parser tighter) (state.behind others) right rest)
    (free : ∀ further ∈ level,
      (state.behind rest).next.toLexeme ≠ .operator (BinaryOperator.symbol further)) :
    Parses (Expression.levels parser (level :: tighter)) state (.binary operator mark left right)
      rest := by
  have found := ofLexeme?_of_mem inTable member
  rw [← isMark] at found
  rw [Parses] at first second
  simp [Parses, Expression.levels, first, Expression.chain, found, second, chain_ends free, operand,
    outcome_advance (state.behind_unread (mark :: others))]

/-- The levels around an operator. No tighter one has its symbol. -/
theorem levels_around {operator : BinaryOperator}
    (present : ∃ level ∈ BinaryOperator.levels, operator ∈ level) :
    ∃ looser level tighter, BinaryOperator.levels = looser ++ level :: tighter ∧
      operator ∈ level ∧ ∀ mark : Token, mark.toLexeme = .operator operator.symbol →
        mark.JoinsNothing tighter := by
  obtain ⟨level, inTable, member⟩ := present
  obtain ⟨looser, tighter, split⟩ := List.append_of_mem inTable
  refine ⟨looser, level, tighter, split, member, fun mark isMark other within further found => ?_⟩
  have suffix : level :: tighter <:+ BinaryOperator.levels := ⟨looser, split.symm⟩
  have different := List.pairwise_cons.mp (symbols_differ.sublist suffix.sublist)
  rw [isMark]
  intro same
  exact different.1 other within operator member further found
    (by simpa [Lexeme.operator] using same)

end Levels

theorem arithmetic_in_table (operator : Arithmetic) :
    ∃ level ∈ BinaryOperator.levels, .arithmetic operator ∈ level := by
  cases operator <;> decide

section Spelled

variable {source sign opening closing : Token} {tokens rest : List Token} {value : Phrase}
  {operator : Arithmetic} (isSource : source.kind = .identifier)
  (isSign : sign.toLexeme = .operator operator.symbol)
  (isOpening : opening.toLexeme = .punctuation "(")
  (isClosing : closing.toLexeme = .punctuation ")")
  (derives : Derives .expression tokens [value])
include isSource isSign isOpening isClosing derives

theorem spelled_parses {bound : Nat} {state : State}
    (unread : state.unread = source :: sign :: opening :: (tokens ++ closing :: rest))
    (enough : tokens.length ≤ bound)
    (free : (state.behind rest).next.JoinsNothing BinaryOperator.levels) :
    Parses (Expression.operandWithin (bound + 1)) state
      (.binary (.arithmetic operator) sign (.reference source) (.group opening value)) rest := by
  obtain ⟨looser, level, tighter, split, member, apart⟩ :=
    levels_around (arithmetic_in_table operator)
  have inTable : level ∈ BinaryOperator.levels := by simp [split]
  obtain ⟨outside, within⟩ := List.forall_mem_append.mp (split ▸ free)
  obtain ⟨here, inside⟩ := List.forall_mem_cons.mp within
  have first : Parses (Expression.levels (Expression.operandWithin bound) tighter) state
      (.reference source) (sign :: opening :: (tokens ++ closing :: rest)) := by
    refine primary_at_levels (.reference isSource) unread ?_ (apart sign isSign)
    refine runs_reference isSource bound state _ (by simp) unread fun token head => ?_
    obtain rfl : sign = token := by simpa using head
    simp [isSign]
  have second : Parses (Expression.levels (Expression.operandWithin bound) tighter)
      (state.behind (opening :: (tokens ++ closing :: rest))) (.group opening value) rest := by
    have inner := runs_of_derives derives bound (state.behind (tokens ++ closing :: rest))
      (closing :: rest) enough rfl (ends_punctuation isClosing (by decide))
    have opened : (state.behind (opening :: (tokens ++ closing :: rest))).unread =
        opening :: tokens ++ [closing] ++ rest := by simp
    exact primary_at_levels (.group isOpening isClosing derives) opened
      (group_parses isOpening isClosing rfl inner) inside
  have whole := parses_looser (joined_parses inTable member isSign first second here) outside
  rw [← split, Parses] at whole
  have noMark : Assignment.ofLexeme? sign.toLexeme = none :=
    isSign ▸ symbols_assign_nothing level inTable _ member
  have ahead : outcome Expression.assignment? state = .ok (none, state) := by
    simp [Expression.assignment?, State.next_cons unread, isSource, unread, noMark]
  simp [Parses, Expression.operandWithin, ahead, whole]

end Spelled

theorem parses_within {state : State} {phrase : Phrase} {rest : List Token}
    (parses : Parses (Expression.operandWithin state.unread.length) state phrase rest) :
    Parses Expression.operand state phrase rest := by
  simpa [Parses, Expression.operand] using parses

theorem compound_parses {state : State} {name mark : Token} {form : Assignment}
    {tokens rest : List Token} {value : Phrase} {found : Operand} (named : name.kind = .identifier)
    (isMark : Assignment.ofLexeme? mark.toLexeme = some form)
    (derives : Derives .expression tokens [value]) (meaning : value.operand state.scope = .ok found)
    (read : outcome Expression.operand (state.behind (tokens ++ rest)) =
      .ok (found, state.behind rest)) :
    Parses Expression.operand (state.behind (name :: mark :: (tokens ++ rest)))
      (.assign name form mark value) rest := by
  have within : Parses (Expression.operandWithin (tokens.length + rest.length + 1))
      (state.behind (tokens ++ rest)) value rest := by
    have covers := Expression.operandWithin_covered.suffices (state.behind (tokens ++ rest))
      (tokens.length + rest.length + 1) (by simp)
    simp only [Expression.operand, outcome_bind, outcome_unreadCount, ok_bind] at read
    rw [Parses, covers, read, State.behind_scope, meaning]
    rfl
  refine parses_within ?_
  have count : (state.behind (name :: mark :: (tokens ++ rest))).unread.length =
      tokens.length + rest.length + 1 + 1 := by simp
  rw [count]
  exact assignment_parses named isMark rfl (next_eq_start rfl derives) within

theorem plain_assignment_parses {state : State}
    {target equals source sign opening closing : Token} {operator : Arithmetic}
    {tokens rest : List Token} {value : Phrase} (isTarget : target.kind = .identifier)
    (isEquals : Assignment.ofLexeme? equals.toLexeme = some .plain)
    (isSource : source.kind = .identifier) (isSign : sign.toLexeme = .operator operator.symbol)
    (isOpening : opening.toLexeme = .punctuation "(")
    (isClosing : closing.toLexeme = .punctuation ")")
    (derives : Derives .expression tokens [value])
    (free : (state.behind rest).next.JoinsNothing BinaryOperator.levels) :
    Parses Expression.operand
      (state.behind
        (target :: equals :: source :: sign :: opening :: (tokens ++ closing :: rest)))
      (.assign target .plain equals
        (.binary (.arithmetic operator) sign (.reference source) (.group opening value))) rest := by
  have spelled := spelled_parses isSource isSign isOpening isClosing derives
    (state.behind_unread (source :: sign :: opening :: (tokens ++ closing :: rest)))
    (show tokens.length ≤ tokens.length + rest.length + 4 by omega) free
  refine parses_within ?_
  have count : (state.behind (target :: equals :: source :: sign :: opening ::
      (tokens ++ closing :: rest))).unread.length = tokens.length + rest.length + 4 + 1 + 1 := by
    simp
    omega
  rw [count]
  have unread : (state.behind (target :: equals :: source :: sign :: opening ::
      (tokens ++ closing :: rest))).unread = target :: equals ::
        (source :: sign :: opening :: (tokens ++ [closing]) ++ rest) := by simp
  exact assignment_parses isTarget isEquals unread (by simp [start]) (by simpa using spelled)

theorem assign_typed {scope : Scope} {name mark : Token} {form : Assignment} {value : Phrase}
    {found : Operand} (meaning : (assign name form mark value).operand scope = .ok found) :
    ∃ node, found = .typed node := by
  simp only [operand, bind_eq_ok] at meaning
  obtain ⟨target, _, meaning⟩ := meaning
  split at meaning
  · cases meaning
  · simp only [bind_eq_ok, pure_ok, Except.ok.injEq] at meaning
    obtain ⟨_, _, node, _, rfl⟩ := meaning
    exact ⟨_, rfl⟩

end Phrase

/-- An error of a number token that no source spells. -/
inductive ParseError.BlamesNumber (tokens : List Token) : ParseError → Prop where
  | intro {token : Token} {place : Location} :
      token ∈ tokens → token.kind = .number → ¬ Scanner.IsNumeral token.text.toList →
      BlamesNumber tokens (.malformed (.malformedNumber token.text) place)

theorem Phrase.assign_fails {tokens : List Token} {value : Phrase}
    (derives : Derives .expression tokens [value]) {name mark : Token} {form : Assignment}
    (named : name.kind = .identifier) (isMark : Assignment.ofLexeme? mark.toLexeme = some form)
    {scope : Scope} {error : ParseError}
    (failed : (assign name form mark value).operand scope = .error error) :
    error.IsTyping ∨ error.BlamesNumber tokens := by
  have markKind : mark.kind = .operator := by
    by_contra other
    simp [Assignment.ofLexeme?, other] at isMark
  have numbers : ∀ token ∈ name :: mark :: tokens, token.kind = .number →
      Literal.Tolerated (fun error => error.IsTyping ∨ error.BlamesNumber tokens) token.text := by
    intro token member isNumber fractional unread place
    rcases List.mem_cons.mp member with rfl | member
    · cases named.symm.trans isNumber
    rcases List.mem_cons.mp member with rfl | member
    · cases markKind.symm.trans isNumber
    refine .inr (.intro member isNumber fun isNumeral => ?_)
    simpa [unread] using Scanner.read?_of_numeral isNumeral fractional
  have admissible := (Derives.assignment named isMark derives).admissible (fun _ => .inl) numbers
    scope _ (List.mem_singleton_self _)
  exact admissible.error failed

theorem Assignment.ofLexeme?_compound (operator : Arithmetic) :
    ofLexeme? (.operator (operator.symbol ++ "=")) = some (.compound operator) := by
  cases operator <;> decide

/-- Assigning with an operator is assigning what the operator gives, with the value in
parentheses: in every state, for every value that is read on its own in front of the same tokens,
both give the same node and leave the same behind them, or both fail alike. They fail by a name, a
constant or a type, or where a number token of the value is spelled as no source spells one. -/
theorem compound_assignment_desugars {state : State} {given rest : List Token} {found : Operand}
    (read : outcome Expression.operand (state.behind (given ++ rest)) =
      .ok (found, state.behind rest))
    (operator : Arithmetic) {name mark target equals source sign opening closing : Token}
    (named : name.kind = .identifier)
    (isMark : mark.toLexeme = .operator (operator.symbol ++ "="))
    (isTarget : target.toLexeme = name.toLexeme) (isEquals : equals.toLexeme = .operator "=")
    (isSource : source.toLexeme = name.toLexeme)
    (isSign : sign.toLexeme = .operator operator.symbol)
    (isOpening : opening.toLexeme = .punctuation "(")
    (isClosing : closing.toLexeme = .punctuation ")") :
    let compound := outcome Expression.operand (state.behind (name :: mark :: (given ++ rest)))
    let spelled := outcome Expression.operand (state.behind
      (target :: equals :: source :: sign :: opening :: (given ++ closing :: rest)))
    (∃ node, compound = .ok (.typed node, state.behind rest) ∧
      spelled = .ok (.typed node, state.behind rest)) ∨
    ∃ error place, compound = .error error ∧ spelled = .error (error.moved place) ∧
      (error.IsTyping ∨ error.BlamesNumber given) := by
  intro compound spelled
  obtain ⟨tokens, value, reads, derives, meaning⟩ := Phrase.operand_spells _ _ _ read
  obtain rfl : given = tokens := List.append_cancel_right reads.unread
  have isCompound : Assignment.ofLexeme? mark.toLexeme = some (.compound operator) :=
    isMark ▸ Assignment.ofLexeme?_compound operator
  have isPlain : Assignment.ofLexeme? equals.toLexeme = some .plain := by
    rw [isEquals]
    decide
  have first : compound = _ := Phrase.compound_parses named isCompound derives meaning read
  have second : spelled = _ := Phrase.plain_assignment_parses (isTarget ▸ named) isPlain
    (isSource ▸ named) isSign isOpening isClosing derives (Expression.operand_exhausts _ _ _ read)
  have same : SameElsewhere ((Phrase.assign name (.compound operator) mark value).operand _)
      ((Phrase.assign target .plain equals (.binary (.arithmetic operator) sign (.reference source)
        (.group opening value))).operand _) :=
    Phrase.assign_elsewhere (congrArg Lexeme.text isTarget) (congrArg Lexeme.text isSource) meaning
  rw [first, second]
  simp only [State.behind_scope, State.behind_behind] at same ⊢
  cases done : (Phrase.assign name (.compound operator) mark value).operand state.scope with
  | ok result =>
      obtain ⟨node, rfl⟩ := Phrase.assign_typed done
      rw [done] at same
      generalize (Phrase.assign target _ _ _).operand state.scope = other at same ⊢
      cases same
      exact .inl ⟨node, rfl, rfl⟩
  | error error =>
      have fails := Phrase.assign_fails derives named isCompound done
      rw [done] at same
      generalize (Phrase.assign target _ _ _).operand state.scope = other at same ⊢
      cases same with
      | error _ place => exact .inr ⟨error, place, rfl, rfl, fails⟩

/-- A state with a variable `x` of a type, before tokens that stand at no place. -/
def State.declaring (type : DataType) (lexemes : List Lexeme) : State :=
  ⟨lexemes.map Lexeme.token, ⟨⟨.endOfInput, ""⟩, .start⟩,
    ⟨[⟨"x", type, .globalVariable⟩], [], none⟩, none, 0, rfl⟩

/-- `x -= 2 - 1` and `x = x - (2 - 1)`. -/
theorem difference_subtracted :
    let x : Lexeme := ⟨.identifier, "x"⟩
    let difference : List Lexeme := [⟨.number, "2"⟩, .operator "-", ⟨.number, "1"⟩]
    let rest : List Lexeme := [.punctuation ";"]
    ∃ node, outcome Expression.operand
        (State.declaring .i32 (x :: .operator "-=" :: difference ++ rest)) =
          .ok (.typed node, State.declaring .i32 rest) ∧
      outcome Expression.operand (State.declaring .i32 (x :: .operator "=" :: x :: .operator "-" ::
        .punctuation "(" :: difference ++ .punctuation ")" :: rest)) =
          .ok (.typed node, State.declaring .i32 rest) := by
  intro x difference rest
  have spelled (lexeme : Lexeme) : lexeme.token.toLexeme = lexeme := rfl
  have read : outcome Expression.operand ((State.declaring .i32 rest).behind
      (difference.map Lexeme.token ++ rest.map Lexeme.token)) =
        .ok (_, (State.declaring .i32 rest).behind (rest.map Lexeme.token)) := rfl
  have both := compound_assignment_desugars read .sub (show x.token.kind = .identifier from rfl)
    (spelled (.operator "-=")) (spelled x) (spelled (.operator "=")) (spelled x)
    (spelled (.operator "-")) (spelled (.punctuation "(")) (spelled (.punctuation ")"))
  refine both.resolve_right ?_
  rintro ⟨error, _, failed, _⟩
  cases failed

theorem malformed_value_fails :
    let x : Lexeme := ⟨.identifier, "x"⟩
    let value : Lexeme := ⟨.number, "1.2.3"⟩
    let rest : List Lexeme := [.punctuation ";"]
    (∃ found, outcome Expression.operand (State.declaring .f64 (value :: rest)) =
      .ok (found, State.declaring .f64 rest)) ∧
    outcome Expression.operand (State.declaring .f64 (x :: .operator "+=" :: value :: rest)) =
      .error (.malformed (.malformedNumber "1.2.3") .start) ∧
    outcome Expression.operand (State.declaring .f64 (x :: .operator "=" :: x :: .operator "+" ::
      .punctuation "(" :: value :: .punctuation ")" :: rest)) =
        .error (.malformed (.malformedNumber "1.2.3") .start) :=
  ⟨⟨_, rfl⟩, rfl, rfl⟩

end ScalarC
