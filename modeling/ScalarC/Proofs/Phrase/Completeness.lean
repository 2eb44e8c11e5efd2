import ScalarC.Proofs.Phrase.Soundness

/-!
The parsers of expressions find every phrase of the grammar: on tokens that
derive one, followed by a token that cannot continue it, they do what the phrase
means, the error included. The looks ahead are justified by how phrases begin
(`Derives.opens`) and by the operators of two levels being different.
-/

namespace ScalarC

open Parse

namespace Phrase

/-- A parser that reads exactly the tokens of a phrase and does what it means. -/
def Parses (parser : Parse Operand) (state : State) (phrase : Phrase) (rest : List Token) :
    Prop :=
  outcome parser state =
    phrase.operand state.scope >>= fun found => .ok (found, state.behind rest)

/-- What comes next neither calls the name before it nor joins it by an operator of the
levels. -/
def Stops (levels : List (List BinaryOperator)) (rest : List Token) : Prop :=
  ∀ token ∈ rest.head?, token.toLexeme ≠ .punctuation "(" ∧
    ∀ level ∈ levels, ∀ operator ∈ level, token.toLexeme ≠ .operator operator.symbol

/-- What comes next cannot continue any phrase. -/
def Ends (rest : List Token) : Prop :=
  ∀ token ∈ rest.head?, token.toLexeme ≠ .punctuation "(" ∧ token.kind ≠ .operator

theorem Ends.stops {rest : List Token} (ends : Ends rest) (levels : List (List BinaryOperator)) :
    Stops levels rest := by
  intro token head
  refine ⟨(ends token head).1, fun level _ operator _ same => (ends token head).2 ?_⟩
  rw [same]
  rfl

theorem ends_punctuation {token : Token} {mark : String} {rest : List Token}
    (isMark : token.toLexeme = .punctuation mark) (other : mark ≠ "(") : Ends (token :: rest) := by
  intro head same
  obtain rfl : token = head := by simpa using same
  rw [isMark]
  exact ⟨by simpa [Lexeme.punctuation] using other, by simp⟩

/-! The table of operators: no lexeme stands for two of them. -/

theorem symbols_differ :
    BinaryOperator.levels.Pairwise fun looser tighter =>
      ∀ first ∈ looser, ∀ second ∈ tighter, first.symbol ≠ second.symbol := by
  decide

theorem level_symbols_differ : ∀ level ∈ BinaryOperator.levels,
    ∀ first ∈ level, ∀ second ∈ level, first.symbol = second.symbol → first = second := by
  decide

theorem symbols_assign_nothing : ∀ level ∈ BinaryOperator.levels, ∀ operator ∈ level,
    Assignment.ofLexeme? (.operator operator.symbol) = none := by
  decide

theorem ofLexeme?_of_mem {level : List BinaryOperator} {operator : BinaryOperator}
    (inTable : level ∈ BinaryOperator.levels) (member : operator ∈ level) :
    BinaryOperator.ofLexeme? level (.operator operator.symbol) = some operator := by
  cases found : BinaryOperator.ofLexeme? level (.operator operator.symbol) with
  | none => simpa using List.find?_eq_none.mp found operator member
  | some other =>
      obtain ⟨isMember, same⟩ := ofLexeme?_eq_some found
      have symbols : operator.symbol = other.symbol := by simpa [Lexeme.operator] using same
      rw [level_symbols_differ level inTable operator member other isMember symbols]

section Inner

variable {operand : Parse Operand} {state : State} {phrase : Phrase} {rest : List Token}

theorem typed_parses (parses : Parses operand state phrase rest)
    (start : state.next = phrase.start) (expected : DataType) (context : String) :
    outcome (Expression.typed operand expected context) state =
      phrase.settled state.scope expected context >>= fun node =>
        .ok (node, state.behind rest) := by
  rw [Parses] at parses
  simp [Expression.typed, parses, start, settled, Operand.settle]

theorem storedValue_parses (parses : Parses operand state phrase rest)
    (start : state.next = phrase.start) (form : Assignment) (target : Variable)
    (place : Location) :
    outcome (Expression.storedValue operand form target place) state =
      (phrase.operand state.scope >>= form.stored target place phrase.start.location) >>=
        fun node => .ok (node, state.behind rest) := by
  cases form with
  | plain =>
      have typed := typed_parses parses start target.type "assigned value"
      simpa [Expression.storedValue, Assignment.stored, settled] using typed
  | compound operator =>
      rw [Parses] at parses
      simp [Expression.storedValue, Expression.compoundValue, Assignment.stored, Operand.settle,
        parses, start]

end Inner

theorem chain_ends {level : List BinaryOperator} {parser : Parse Operand} {bound : Nat}
    {found : Operand} {state : State}
    (free : ∀ operator ∈ level, state.next.toLexeme ≠ .operator operator.symbol) :
    outcome (Expression.chain level parser bound found) state = .ok (found, state) := by
  have none : BinaryOperator.ofLexeme? level state.next.toLexeme = none :=
    List.find?_eq_none.mpr fun operator member => by simpa using free operator member
  cases bound with
  | zero => rfl
  | succ bound => simp [Expression.chain, none]

theorem chain_stops {level : List BinaryOperator} {parser : Parse Operand} {bound : Nat}
    {found : Operand} {state : State} {rest : List Token} (stops : Stops [level] rest) :
    outcome (Expression.chain level parser bound found) (state.behind rest) =
      .ok (found, state.behind rest) := by
  refine chain_ends fun operator member => ?_
  cases rest with
  -- The end of input is no operator either.
  | nil =>
      intro same
      have kind : (state.behind []).next.kind = .operator := by rw [same]; rfl
      rw [show (state.behind []).next.kind = .endOfInput from state.closes] at kind
      cases kind
  | cons token others => exact (stops token rfl).2 level (by simp) operator member

/-- What a derivation promises of the parser of its symbol. At a binary level the loop over the
level's operators goes on behind the phrase, so a longer phrase can begin with it. -/
def Runs : Symbol → List Token → List Phrase → Prop
  | .expression, tokens, [phrase] => ∀ bound state rest, tokens.length ≤ bound →
      state.unread = tokens ++ rest → Ends rest →
      Parses (Expression.operandWithin bound) state phrase rest
  | .binary [], tokens, [phrase] => ∀ bound state rest, tokens.length ≤ bound + 1 →
      state.unread = tokens ++ rest → Stops [] rest →
      Parses (Expression.levels (Expression.operandWithin bound) []) state phrase rest
  | .binary (level :: levels), tokens, [phrase] =>
      level :: levels <:+ BinaryOperator.levels →
      ∀ bound state rest, tokens.length ≤ bound + 1 →
      state.unread = tokens ++ rest → Stops levels rest →
      let tighter := Expression.levels (Expression.operandWithin bound) levels
      ∃ fuel, rest.length ≤ fuel ∧
        outcome (Expression.levels (Expression.operandWithin bound) (level :: levels)) state =
          phrase.operand state.scope >>= fun found =>
            outcome (Expression.chain level tighter fuel found) (state.behind rest)
  | .unary, tokens, [phrase] => ∀ bound depth state rest, tokens.length ≤ bound + 1 →
      tokens.length ≤ depth → state.unread = tokens ++ rest → Stops [] rest →
      Parses (Expression.unary (Expression.operandWithin bound) depth) state phrase rest
  | .primary, tokens, [phrase] => ∀ bound state rest, tokens.length ≤ bound + 1 →
      state.unread = tokens ++ rest → Stops [] rest →
      Parses (Expression.primary (Expression.operandWithin bound)) state phrase rest
  | .arguments, tokens, given => ∀ bound name position types state closing rest,
      tokens.length ≤ bound → state.unread = tokens ++ closing :: rest →
      closing.toLexeme = .punctuation ")" →
      outcome (Expression.arguments (Expression.operandWithin bound) name position types) state =
        arguments state.scope name position given types >>= fun nodes =>
          .ok (nodes, state.behind (closing :: rest))
  | _, _, _ => True

theorem Runs.level {levels : List (List BinaryOperator)} {tokens : List Token} {phrase : Phrase}
    (runs : Runs (.binary levels) tokens [phrase]) (inTable : levels <:+ BinaryOperator.levels)
    {bound : Nat} {state : State} {rest : List Token} (enough : tokens.length ≤ bound + 1)
    (unread : state.unread = tokens ++ rest) (stops : Stops levels rest) :
    Parses (Expression.levels (Expression.operandWithin bound) levels) state phrase rest := by
  cases levels with
  | nil => exact runs bound state rest enough unread stops
  | cons level levels =>
      have inner : Stops levels rest := fun token head =>
        ⟨(stops token head).1, fun other member => (stops token head).2 other (by simp [member])⟩
      have outer : Stops [level] rest := fun token head =>
        ⟨(stops token head).1, fun other member => (stops token head).2 other (by simp_all)⟩
      obtain ⟨fuel, _, ran⟩ := runs inTable bound state rest enough unread inner
      simp only [Parses, ran, chain_stops outer]

/-! One lemma for every production. -/

theorem runs_tighter {level : List BinaryOperator} {levels : List (List BinaryOperator)}
    {tokens : List Token} {phrase : Phrase} (runs : Runs (.binary levels) tokens [phrase]) :
    Runs (.binary (level :: levels)) tokens [phrase] := by
  intro inTable bound state rest enough unread stops tighter
  have parses := runs.level ((List.suffix_cons level levels).trans inTable) enough unread stops
  rw [Parses] at parses
  refine ⟨rest.length, Nat.le_refl _, ?_⟩
  simp [Expression.levels, parses, tighter]

theorem runs_joined {level : List BinaryOperator} {levels : List (List BinaryOperator)}
    {mark : Token} {operator : BinaryOperator} {first second : List Token} {left right : Phrase}
    (runsLeft : Runs (.binary (level :: levels)) first [left]) (member : operator ∈ level)
    (isMark : mark.toLexeme = .operator operator.symbol)
    (runsRight : Runs (.binary levels) second [right]) :
    Runs (.binary (level :: levels)) (first ++ mark :: second)
      [.binary operator mark left right] := by
  intro inTable bound state rest enough unread stops tighter
  simp only [List.length_append, List.length_cons] at enough
  have present : level ∈ BinaryOperator.levels := inTable.subset (by simp)
  -- The operator belongs to no tighter level, so the left side ends before it.
  have apart : Stops levels (mark :: second ++ rest) := by
    intro token same
    obtain rfl : mark = token := by simpa using same
    have different := (symbols_differ.sublist inTable.sublist)
    rw [isMark]
    refine ⟨by simp, fun other within further found same => ?_⟩
    have equal : operator.symbol = further.symbol := by simpa [Lexeme.operator] using same
    exact (List.pairwise_cons.mp different).1 other within operator member further found equal
  -- The fuel left behind the left side covers the mark, and one step of it reads the right side.
  obtain ⟨fuel, longer, ran⟩ := runsLeft inTable bound state (mark :: second ++ rest) (by omega)
    (by simpa using unread) apart
  have parses : Parses (Expression.levels (Expression.operandWithin bound) levels)
      (state.behind (second ++ rest)) right rest :=
    runsRight.level ((List.suffix_cons level levels).trans inTable) (by omega) rfl stops
  rw [Parses] at parses
  simp only [List.length_append, List.length_cons] at longer
  obtain ⟨fuel, rfl⟩ := Nat.exists_eq_succ_of_ne_zero (show fuel ≠ 0 by omega)
  refine ⟨fuel, by omega, ?_⟩
  have found := ofLexeme?_of_mem present member
  rw [← isMark] at found
  have next : (state.behind (mark :: (second ++ rest))).next = mark := rfl
  rw [ran]
  simp [Expression.chain, next, found, operand, parses, tighter,
    outcome_advance (state.behind_unread (mark :: (second ++ rest)))]

theorem runs_prefixed {tokens : List Token} {phrase : Phrase}
    (runs : Runs .unary tokens [phrase]) : Runs (.binary []) tokens [phrase] := by
  intro bound state rest enough unread stops
  have parses := runs bound state.unread.length state rest enough (by simp [unread]) unread stops
  rw [Parses] at parses
  simp [Parses, Expression.levels, parses]

theorem runs_negation {mark : Token} {tokens : List Token} {inner : Phrase}
    (isMinus : mark.toLexeme = .operator "-") (runs : Runs .unary tokens [inner]) :
    Runs .unary (mark :: tokens) [.negate mark inner] := by
  intro bound depth state rest enough deep unread stops
  simp only [List.length_cons] at enough deep
  obtain ⟨depth, rfl⟩ := Nat.exists_eq_succ_of_ne_zero (show depth ≠ 0 by omega)
  have parses := runs bound depth (state.behind (tokens ++ rest)) rest (by omega) (by omega) rfl
    stops
  rw [Parses] at parses
  simp [Parses, Expression.unary, Expression.seesCast, State.next_cons unread, isMinus,
    outcome_advance unread, parses, operand]

theorem runs_complement {mark : Token} {tokens : List Token} {inner : Phrase}
    (isMark : mark.toLexeme = .operator "!") (runs : Runs .unary tokens [inner]) :
    Runs .unary (mark :: tokens) [.complement mark inner] := by
  intro bound depth state rest enough deep unread stops
  simp only [List.length_cons] at enough deep
  obtain ⟨depth, rfl⟩ := Nat.exists_eq_succ_of_ne_zero (show depth ≠ 0 by omega)
  have parses := runs bound depth (state.behind (tokens ++ rest)) rest (by omega) (by omega) rfl
    stops
  rw [Parses] at parses
  simp [Parses, Expression.unary, Expression.seesCast, State.next_cons unread, isMark,
    outcome_advance unread, parses, operand]

theorem typeWord_of_namesType {word : Token} {type : DataType} (names : word.NamesType type) :
    word.isTypeWord = true := by
  have opensNothing : StatementWord.ofText? word.text = none := by
    have spelled := names.2
    simp only [DataType.ofWord?] at spelled
    split at spelled
    · rename_i same; rw [same]; decide
    split at spelled
    · rename_i same; rw [same]; decide
    split at spelled
    · rename_i same; rw [same]; decide
    split at spelled
    · rename_i same; rw [same]; decide
    · cases spelled
  simp [Lexeme.isTypeWord, names.1, opensNothing]

theorem declaredType_of_namesType {state : State} {word : Token} {rest : List Token}
    {type : DataType} (unread : state.unread = word :: rest) (names : word.NamesType type) :
    outcome declaredType state = .ok (type, state.behind rest) := by
  have declared : DataType.declared word.text word.location = .ok type :=
    declared_eq_ok.mpr names.2
  simp [declaredType, State.next_cons unread, Lexeme.inTypePosition,
    typeWord_of_namesType names, outcome_advance unread, declared]

theorem runs_cast {opening word closing : Token} {target : DataType} {tokens : List Token}
    {inner : Phrase} (isOpening : opening.toLexeme = .punctuation "(")
    (names : word.NamesType target) (isClosing : closing.toLexeme = .punctuation ")")
    (runs : Runs .unary tokens [inner]) :
    Runs .unary (opening :: word :: closing :: tokens) [.cast opening target inner] := by
  intro bound depth state rest enough deep unread stops
  simp only [List.length_cons] at enough deep
  obtain ⟨depth, rfl⟩ := Nat.exists_eq_succ_of_ne_zero (show depth ≠ 0 by omega)
  have parses := runs bound depth (state.behind (tokens ++ rest)) rest (by omega) (by omega) rfl
    stops
  rw [Parses] at parses
  have declared := declaredType_of_namesType
    (state.behind_unread (word :: closing :: (tokens ++ rest))) names
  have closed := outcome_expect (state.behind_unread (closing :: (tokens ++ rest))) isClosing
    "after cast type"
  simp [Parses, Expression.unary, Expression.seesCast, State.next_cons unread, unread,
    isOpening, isClosing, typeWord_of_namesType names, outcome_advance unread, declared,
    expectPunctuation, closed, parses, operand]

theorem primary_start {tokens : List Token} {phrase : Phrase}
    (derives : Derives .primary tokens [phrase]) :
    ∃ token others, tokens = token :: others ∧ token.kind ≠ .operator ∧
      (token.toLexeme = .punctuation "(" → ∃ second, others.head? = some second ∧
        second.isTypeWord = false) := by
  cases derives with
  | number kind => exact ⟨_, _, rfl, by simp [kind], fun same => by simp [same] at kind⟩
  | reference named => exact ⟨_, _, rfl, by simp [named], fun same => by simp [same] at named⟩
  | emptyCall named => exact ⟨_, _, rfl, by simp [named], fun same => by simp [same] at named⟩
  | call named => exact ⟨_, _, rfl, by simp [named], fun same => by simp [same] at named⟩
  | group isOpening _ derives =>
      obtain ⟨⟨rest, rfl⟩, opens⟩ := derives.start
      refine ⟨_, _, rfl, by simp [isOpening, Lexeme.punctuation], fun _ => ⟨_, rfl, ?_⟩⟩
      exact opens.not_typeWord

theorem plain_parses {parser : Parse Operand} {state : State} {tokens rest : List Token}
    {phrase : Phrase} (derives : Derives .primary tokens [phrase])
    (unread : state.unread = tokens ++ rest)
    (parses : Parses (Expression.primary parser) state phrase rest) (depth : Nat) :
    Parses (Expression.unary parser depth) state phrase rest := by
  obtain ⟨token, others, rfl, notOperator, grouped⟩ := primary_start derives
  cases depth with
  | zero => exact parses
  | succ depth =>
      have notMark (mark : String) : token.toLexeme ≠ .operator mark := by
        intro same
        exact notOperator (by rw [same]; rfl)
      -- No type word stands behind the parenthesis of a group, so the primary is not a cast.
      have noCast : ¬ (token.toLexeme = .punctuation "(" ∧
          state.unread[1]?.any (·.isTypeWord) = true) := by
        rintro ⟨isOpening, isWord⟩
        obtain ⟨second, head, isNone⟩ := grouped isOpening
        cases others with
        | nil => cases head
        | cons first others =>
            obtain rfl : first = second := by simpa using head
            simp [unread, isNone] at isWord
      rw [Parses] at parses ⊢
      rw [← parses]
      simp only [Expression.unary, Expression.seesCast, outcome_bind, outcome_peek, ok_bind,
        outcome_sees, outcome_seesAhead, outcome_peekAhead, outcome_pure, outcome_ite,
        State.next_cons unread, notMark, ↓reduceIte, Bool.and_eq_true, decide_eq_true_eq, noCast,
        false_and]

theorem runs_plain {tokens : List Token} {phrase : Phrase}
    (derives : Derives .primary tokens [phrase]) (runs : Runs .primary tokens [phrase]) :
    Runs .unary tokens [phrase] := by
  intro bound depth state rest enough _ unread stops
  exact plain_parses derives unread (runs bound state rest enough unread stops) depth

theorem runs_number {token : Token} (kind : token.kind = .number) :
    Runs .primary [token] [.number token] := by
  intro bound state rest _ unread _
  simp [Parses, Expression.primary, Expression.number, State.next_cons unread, kind,
    outcome_advance unread, operand]

theorem runs_reference {name : Token} (named : name.kind = .identifier) :
    Runs .primary [name] [.reference name] := by
  intro bound state rest _ unread stops
  have notCalled : state.unread[1]?.any
      (fun token => decide (token.toLexeme = .punctuation "(")) = false := by
    cases rest with
    | nil => simp [unread]
    | cons token rest => simpa [unread] using (stops token rfl).1
  simp [Parses, Expression.primary, Expression.variableNamed, State.next_cons unread, named,
    notCalled, outcome_advance unread, operand]

theorem group_parses {parser : Parse Operand} {state : State} {opening closing : Token}
    {tokens rest : List Token} {inner : Phrase} (isOpening : opening.toLexeme = .punctuation "(")
    (isClosing : closing.toLexeme = .punctuation ")")
    (unread : state.unread = opening :: (tokens ++ closing :: rest))
    (parses : Parses parser (state.behind (tokens ++ closing :: rest)) inner (closing :: rest)) :
    Parses (Expression.primary parser) state (.group opening inner) rest := by
  have closed := outcome_expect (state.behind_unread (closing :: rest)) isClosing
    "after expression"
  rw [Parses] at parses
  simp [Parses, Expression.primary, Expression.grouped, State.next_cons unread, isOpening,
    outcome_advance unread, parses, expectPunctuation, closed, operand]

theorem runs_group {opening closing : Token} {tokens : List Token} {inner : Phrase}
    (isOpening : opening.toLexeme = .punctuation "(")
    (isClosing : closing.toLexeme = .punctuation ")")
    (runs : Runs .expression tokens [inner]) :
    Runs .primary (opening :: tokens ++ [closing]) [.group opening inner] := by
  intro bound state rest enough unread _
  simp only [List.length_append, List.length_cons, List.length_nil] at enough
  have opened : state.unread = opening :: (tokens ++ closing :: rest) := by simpa using unread
  exact group_parses isOpening isClosing opened
    (runs bound _ (closing :: rest) (by omega) rfl (ends_punctuation isClosing (by decide)))

theorem call_parses {parser : Parse Operand} {state : State} {name opening closing : Token}
    {tokens rest : List Token} {given : List Phrase} (named : name.kind = .identifier)
    (isOpening : opening.toLexeme = .punctuation "(")
    (isClosing : closing.toLexeme = .punctuation ")")
    (unread : state.unread = name :: opening :: (tokens ++ closing :: rest))
    (runs : ∀ types, outcome (Expression.argumentList parser name.text types)
      (state.behind (tokens ++ closing :: rest)) =
        arguments state.scope name.text 0 given types >>= fun nodes =>
          .ok (nodes, state.behind (closing :: rest))) :
    Parses (Expression.primary parser) state (.call name given closing) rest := by
  have closed := outcome_expect (state.behind_unread (closing :: rest)) isClosing
    "after function arguments"
  have next : (state.behind (closing :: rest)).next = closing := rfl
  simp only [Parses, Expression.primary, outcome_bind, outcome_peek, ok_bind,
    State.next_cons unread, named, outcome_seesAhead, unread, List.getElem?_cons_succ,
    List.getElem?_cons_zero, Option.any_some, isOpening, decide_true, ↓reduceIte, Expression.call,
    outcome_advance unread, outcome_advance (state.behind_unread (opening :: _)), outcome_scope,
    outcome_ofExcept, bind_assoc, State.behind_behind, State.behind_scope, runs, outcome_ite,
    outcome_raise, next, expectPunctuation, closed, outcome_pure, operand]
  -- Both sides count the arguments the same way, whatever the signature is.
  congr 1
  funext signature
  congr 1
  funext nodes
  split <;> rfl

theorem runs_emptyCall {name opening closing : Token} (named : name.kind = .identifier)
    (isOpening : opening.toLexeme = .punctuation "(")
    (isClosing : closing.toLexeme = .punctuation ")") :
    Runs .primary [name, opening, closing] [.call name [] closing] := by
  intro bound state rest _ unread _
  have spread : state.unread = name :: opening :: ([] ++ closing :: rest) := unread
  refine call_parses named isOpening isClosing spread fun types => ?_
  have next : (state.behind (closing :: rest)).next = closing := rfl
  simp [Expression.argumentList, next, isClosing, arguments]

theorem runs_call {name opening closing : Token} {tokens : List Token} {given : List Phrase}
    (named : name.kind = .identifier) (isOpening : opening.toLexeme = .punctuation "(")
    (isClosing : closing.toLexeme = .punctuation ")")
    (derives : Derives .arguments tokens given) (runs : Runs .arguments tokens given) :
    Runs .primary (name :: opening :: tokens ++ [closing]) [.call name given closing] := by
  intro bound state rest enough unread _
  simp only [List.length_append, List.length_cons, List.length_nil] at enough
  have spread : state.unread = name :: opening :: (tokens ++ closing :: rest) := by
    simpa using unread
  refine call_parses named isOpening isClosing spread fun types => ?_
  have ran := runs bound name.text 0 types (state.behind (tokens ++ closing :: rest)) closing rest
    (by omega) rfl isClosing
  obtain ⟨phrase, others, begins, rfl, rfl, opens⟩ := derives.opens
  simpa [Expression.argumentList, opens.not_closing] using ran

theorem runs_last {tokens : List Token} {phrase : Phrase}
    (derives : Derives .expression tokens [phrase]) (runs : Runs .expression tokens [phrase]) :
    Runs .arguments tokens [phrase] := by
  intro bound name position types state closing rest enough unread isClosing
  have start := next_eq_start unread derives
  cases types with
  | nil => simp [Expression.arguments, arguments, start]
  | cons type types =>
      have parses := runs bound state (closing :: rest) enough unread
        (ends_punctuation isClosing (by decide))
      have other : (state.behind (closing :: rest)).next.toLexeme ≠ .punctuation "," := by
        rw [State.next_behind_cons, isClosing]
        decide
      simp [Expression.arguments, arguments, typed_parses parses start,
        outcome_accept_other other, settled]

theorem runs_further {comma : Token} {first others : List Token} {phrase : Phrase}
    {given : List Phrase} (derives : Derives .expression first [phrase])
    (runs : Runs .expression first [phrase]) (isComma : comma.toLexeme = .punctuation ",")
    (further : Runs .arguments others given) :
    Runs .arguments (first ++ comma :: others) (phrase :: given) := by
  intro bound name position types state closing rest enough unread isClosing
  simp only [List.length_append, List.length_cons] at enough
  have spread : state.unread = first ++ (comma :: (others ++ closing :: rest)) := by
    simpa using unread
  have start := next_eq_start spread derives
  cases types with
  | nil => simp [Expression.arguments, arguments, start]
  | cons type types =>
      have parses := runs bound state (comma :: (others ++ closing :: rest)) (by omega) spread
        (ends_punctuation isComma (by decide))
      have accepted := outcome_accept
        (state.behind_unread (comma :: (others ++ closing :: rest))) isComma
      have ran := further bound name (position + 1) types (state.behind (others ++ closing :: rest))
        closing rest (by omega) rfl isClosing
      simp [Expression.arguments, arguments, typed_parses parses start, accepted, ran, settled]

theorem second_not_assignment {symbol : Symbol} {tokens : List Token} {phrases : List Phrase}
    (derives : Derives symbol tokens phrases) {levels : List (List BinaryOperator)}
    (below : symbol = .binary levels ∨ symbol = .unary ∨ symbol = .primary)
    (inTable : levels <:+ BinaryOperator.levels) {name mark : Token} {rest others : List Token}
    (begins : tokens ++ rest = name :: mark :: others) (named : name.kind = .identifier)
    (follows : ∀ token ∈ rest.head?, Assignment.ofLexeme? token.toLexeme = none) :
    Assignment.ofLexeme? mark.toLexeme = none := by
  have noMark {token : Token} {text : String} (isMark : token.toLexeme = .punctuation text) :
      Assignment.ofLexeme? token.toLexeme = none := by simp [isMark, Assignment.ofLexeme?]
  -- The first token is a name only of a reference, which ends there, or of a call.
  induction derives generalizing levels rest others with
  | assignment | operators | last | further => simp at below
  | tighter _ ih =>
      obtain rfl : _ = levels := by simpa using below
      exact ih (.inl rfl) ((List.suffix_cons _ _).trans inTable) begins follows
  | joined _ member isMark _ ih =>
      obtain rfl : _ = levels := by simpa using below
      refine ih (.inl rfl) inTable (by simpa using begins) fun token head => ?_
      obtain rfl : _ = token := by simpa using head
      rw [isMark]
      exact symbols_assign_nothing _ (inTable.subset (by simp)) _ member
  | prefixed _ ih =>
      exact ih (.inr (.inl rfl)) inTable begins follows
  | plain _ ih => exact ih (.inr (.inr rfl)) inTable begins follows
  | negation isMinus | complement isMinus =>
      obtain ⟨rfl, _⟩ := List.cons.inj begins
      simp [isMinus] at named
  | cast isOpening | group isOpening =>
      obtain ⟨rfl, _⟩ := List.cons.inj begins
      simp [isOpening] at named
  | number kind =>
      obtain ⟨rfl, _⟩ := List.cons.inj begins
      simp [kind] at named
  | reference =>
      obtain ⟨rfl, rfl⟩ := List.cons.inj begins
      exact follows mark rfl
  | emptyCall _ isOpening | call _ isOpening =>
      obtain ⟨_, behind⟩ := List.cons.inj begins
      obtain ⟨same, _⟩ := List.cons.inj behind
      rw [← same]
      exact noMark isOpening

theorem assignment_parses {bound : Nat} {state : State} {name mark : Token} {form : Assignment}
    {tokens rest : List Token} {value : Phrase} (named : name.kind = .identifier)
    (isMark : Assignment.ofLexeme? mark.toLexeme = some form)
    (unread : state.unread = name :: mark :: (tokens ++ rest))
    (start : (state.behind (tokens ++ rest)).next = value.start)
    (parses : Parses (Expression.operandWithin bound) (state.behind (tokens ++ rest)) value rest) :
    Parses (Expression.operandWithin (bound + 1)) state (.assign name form mark value) rest := by
  have ahead : outcome Expression.assignment? state = .ok (some form, state) := by
    simp [Expression.assignment?, State.next_cons unread, named, unread, isMark]
  simp only [Parses, Expression.operandWithin, outcome_bind, ahead, ok_bind,
    Expression.assignment, outcome_advance unread,
    outcome_advance (state.behind_unread (mark :: _)), outcome_scope, outcome_ofExcept,
    bind_assoc, State.behind_behind, State.behind_scope, outcome_ite, outcome_raise,
    storedValue_parses parses start, outcome_pure, operand]
  congr 1
  funext target
  split <;> simp

theorem runs_assignment {name mark : Token} {form : Assignment} {tokens : List Token}
    {value : Phrase} (named : name.kind = .identifier)
    (isMark : Assignment.ofLexeme? mark.toLexeme = some form)
    (derives : Derives .expression tokens [value]) (runs : Runs .expression tokens [value]) :
    Runs .expression (name :: mark :: tokens) [.assign name form mark value] := by
  intro bound state rest enough unread ends
  simp only [List.length_cons] at enough
  obtain ⟨bound, rfl⟩ := Nat.exists_eq_succ_of_ne_zero (show bound ≠ 0 by omega)
  have start := next_eq_start (state.behind_unread (tokens ++ rest)) derives
  exact assignment_parses named isMark unread start (runs bound _ rest (by omega) rfl ends)

theorem runs_operators {tokens : List Token} {phrase : Phrase}
    (derives : Derives (.binary BinaryOperator.levels) tokens [phrase])
    (runs : Runs (.binary BinaryOperator.levels) tokens [phrase]) :
    Runs .expression tokens [phrase] := by
  intro bound state rest enough unread ends
  obtain ⟨⟨others, begins⟩, _⟩ := derives.start
  have nonempty : tokens.length ≠ 0 := by simp [begins]
  obtain ⟨bound, rfl⟩ := Nat.exists_eq_succ_of_ne_zero (show bound ≠ 0 by omega)
  have parses := runs.level (List.suffix_refl _) enough unread (ends.stops _)
  have ahead : outcome Expression.assignment? state = .ok (none, state) := by
    simp only [Expression.assignment?, outcome_bind, outcome_peek, outcome_peekAhead, ok_bind,
      outcome_ite, outcome_pure]
    split
    · rename_i named
      cases second : state.unread[1]? with
      | none => rfl
      | some mark =>
          obtain ⟨token, more, spread, same⟩ := State.unread_of_ahead
            (show state.unread[1]?.any (fun token => decide (token = mark)) = true by
              simp [second])
          obtain rfl := of_decide_eq_true same
          have none := second_not_assignment derives (.inl rfl) (List.suffix_refl _)
            (unread.symm.trans spread) named fun token head => by
              simp [Assignment.ofLexeme?, (ends token head).2]
          simp [none]
    · rfl
  rw [Parses] at parses
  simp [Parses, Expression.operandWithin, ahead, parses]

theorem runs_of_derives {symbol : Symbol} {tokens : List Token} {phrases : List Phrase}
    (derives : Derives symbol tokens phrases) : Runs symbol tokens phrases := by
  induction derives with
  | assignment named isMark derives ih => exact runs_assignment named isMark derives ih
  | operators derives ih => exact runs_operators derives ih
  | tighter _ ih => exact runs_tighter ih
  | joined _ member isMark _ left right => exact runs_joined left member isMark right
  | prefixed _ ih => exact runs_prefixed ih
  | negation isMinus _ ih => exact runs_negation isMinus ih
  | complement isMark _ ih => exact runs_complement isMark ih
  | cast isOpening names isClosing _ ih => exact runs_cast isOpening names isClosing ih
  | plain derives ih => exact runs_plain derives ih
  | number kind => exact runs_number kind
  | reference named => exact runs_reference named
  | group isOpening isClosing _ ih => exact runs_group isOpening isClosing ih
  | emptyCall named isOpening isClosing => exact runs_emptyCall named isOpening isClosing
  | call named isOpening isClosing derives ih =>
      exact runs_call named isOpening isClosing derives ih
  | last derives ih => exact runs_last derives ih
  | further derives isComma _ first others => exact runs_further derives first isComma others

/-- The parser of expressions on a phrase of the grammar. -/
theorem operand_parses {tokens rest : List Token} {phrase : Phrase} {state : State}
    (derives : Derives .expression tokens [phrase]) (unread : state.unread = tokens ++ rest)
    (ends : Ends rest) : Parses Expression.operand state phrase rest := by
  have enough : tokens.length ≤ state.unread.length := by simp [unread]
  have parses := runs_of_derives derives state.unread.length state rest enough unread ends
  simpa [Parses, Expression.operand] using parses

end Phrase

end ScalarC
