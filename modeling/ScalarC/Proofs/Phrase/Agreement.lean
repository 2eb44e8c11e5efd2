import ScalarC.Proofs.Phrase.Completeness
import ScalarC.Proofs.Phrase.LiteralTyping

/-!
The two ways of typing literals agree. Every phrase's operand fits its elaboration, by
induction on the phrase; with the parsers of expressions sound and complete for the grammar,
reading an expression and elaborating its phrase give the same node.
-/

namespace ScalarC

def Pending.single? : Pending → Option Literal
  | .literal written => some written
  | _ => none

theorem Arithmetic.node_type {operator : Arithmetic} {type : DataType} {left right node : Node}
    {place : Location} (built : operator.node type left right place = .ok node) :
    node.type = some type := by
  unfold Arithmetic.node at built
  split at built <;> cases built
  rfl

theorem Pending.build_type {pending : Pending} {type : DataType} {node : Node}
    (built : pending.build type = .ok node) : node.type = some type := by
  cases pending with
  | literal written =>
      simp only [build, Literal.node, bind_eq_ok] at built
      obtain ⟨value, _, same⟩ := built
      cases same
      rfl
  | neg inner =>
      simp only [build, bind_eq_ok] at built
      obtain ⟨value, _, same⟩ := built
      cases same
      rfl
  | binary operator left right place =>
      simp only [build, bind_eq_ok] at built
      obtain ⟨first, _, second, _, joined⟩ := built
      exact Arithmetic.node_type joined

/-- The node of a minus sign has the type of the node behind it. -/
def Node.negated (node : Node) : Option Node := do
  let type ← node.type
  some ⟨.neg, none, some type, [node]⟩

theorem Pending.toOption_build_neg (pending : Pending) (type : DataType) :
    ((Pending.neg pending).build type).toOption =
      (pending.build type).toOption >>= Node.negated := by
  cases built : pending.build type with
  | error error => simp [build, built]
  | ok node => simp [build, built, Node.negated, build_type built]

theorem Operand.toOption_negate_typed (node : Node) (place : Location) :
    ((Operand.typed node).negate place).toOption = node.negated.map Operand.typed := by
  cases type : node.type <;> simp [negate, Node.negated, Node.valueType, type]

namespace Phrase

theorem isLiteral_of_single {phrase : Phrase} {literal : Literal}
    (single : phrase.single? = some literal) : phrase.isLiteral = true := by
  induction phrase generalizing literal with
  | number => rfl
  | group _ _ ih => exact ih single
  | negate _ _ ih =>
      obtain ⟨inner, single, _⟩ := Option.map_eq_some_iff.mp single
      exact ih single
  | _ => cases single

theorem single_of_mixed {phrase : Phrase} (mixed : phrase.isLiteral = false) :
    phrase.single? = none := by
  cases single : phrase.single? with
  | none => rfl
  | some literal => exact absurd (isLiteral_of_single single) (by simp [mixed])

/-- A phrase of literals stays pending, as one literal exactly if it is one. -/
theorem literal_pends {phrase : Phrase} (scope : Scope) (literal : phrase.isLiteral = true) :
    ∃ pending : Pending, phrase.operand scope = .ok (.pending pending) ∧
      pending.single? = phrase.single? ∧
      pending.hasFraction =
        phrase.literals.any fun literal => Literal.isFractional literal.text := by
  induction phrase with
  | number token => exact ⟨_, by rw [operand], rfl, by simp [Pending.hasFraction, literals]⟩
  | group _ inner ih =>
      obtain ⟨pending, meaning, single, fraction⟩ := ih literal
      exact ⟨pending, by rw [operand, meaning], single, fraction⟩
  | negate mark inner ih =>
      obtain ⟨pending, meaning, single, fraction⟩ := ih literal
      cases pending with
      | literal written =>
          have single : inner.single? = some written := single.symm
          exact ⟨.literal written.toggled,
            by simp [operand, meaning, Operand.negate, Literal.toggled],
            by simp [Pending.single?, Phrase.single?, single],
            by simp [Pending.hasFraction, literals, single]⟩
      -- Behind anything but one literal the sign stays a sign.
      | neg _ | binary _ _ _ _ =>
          have single : inner.single? = none := single.symm
          exact ⟨.neg _, by simp [operand, meaning, Operand.negate]; rfl,
            by simp [Pending.single?, Phrase.single?, single],
            by simpa [literals, single, Pending.hasFraction] using fraction⟩
  | binary operator mark left right first second =>
      cases operator with
      | arithmetic operator =>
          simp only [isLiteral, Bool.and_eq_true] at literal
          obtain ⟨one, meaning, _, fraction⟩ := first literal.1
          obtain ⟨other, meant, _, fractions⟩ := second literal.2
          exact ⟨.binary operator one other mark.location,
            by simp [operand, meaning, meant, Operand.binary, Operand.arithmetic], rfl,
            by simp [Pending.hasFraction, literals, fraction, fractions]⟩
      | comparison | connective => cases literal
  | _ => cases literal

theorem toOption_cast_literal (target : DataType) (place : Location) (written : Literal) :
    ((Operand.pending (.literal written)).cast target place).toOption =
      (if written.suits target then written.node? target
        else written.node? (Pending.literal written).naturalType >>= Node.converted target).map
          Operand.typed := by
  by_cases suits : written.suits target = true
  · have suited : (target.isFloat || !Literal.isFractional written.text) = true := suits
    simp [Operand.cast, suited, suits, Literal.node?, Option.map_eq_bind]
  · have suited : ¬ (target.isFloat || !Literal.isFractional written.text) = true := suits
    rw [Operand.cast, if_neg suited, if_neg suits]
    simp [toOption_convert, Literal.node?, Option.map_bind]

section Inner

variable {scope : Scope} {inner : Phrase} (fits : Fits (inner.operand scope) (inner.side scope))
include fits

theorem negate_fits (mark : Token) :
    Fits ((negate mark inner).operand scope) ((negate mark inner).side scope) := by
  simp only [operand, side, isLiteral, elaborate]
  rcases fits.pending_or_same with ⟨pending, meaning, literal, builds⟩ | ⟨mixed, same⟩
  · obtain ⟨other, meant, single, _⟩ := literal_pends scope literal
    cases meaning.symm.trans meant
    rw [meaning, show inner.isLiteral = true from literal]
    cases pending with
    | literal written =>
        rw [← single]
        exact .pending fun _ => rfl
    | neg _ | binary _ _ _ _ =>
        rw [← single]
        refine .pending fun type => ?_
        rw [Pending.toOption_build_neg, builds type]
        rfl
  · have single := single_of_mixed mixed
    rw [show inner.isLiteral = false from mixed]
    refine .of_toOption fun type => ?_
    rw [toOption_bind, same type, single]
    simp [Operand.toOption_negate_typed, Option.map_eq_bind, Option.bind_assoc, Node.negated, side]

theorem cast_fits (opening : Token) (target : DataType) :
    Fits ((cast opening target inner).operand scope) ((cast opening target inner).side scope) := by
  simp only [operand, side, isLiteral, elaborate]
  refine .of_toOption fun type => ?_
  rcases fits.pending_or_same with ⟨pending, meaning, literal, builds⟩ | ⟨mixed, same⟩
  · obtain ⟨other, meant, single, fraction⟩ := literal_pends scope literal
    cases meaning.symm.trans meant
    -- The fractions of the pending operand are those of the literals of the phrase.
    have natural : pending.naturalType = inner.naturalType := by
      simp [Pending.naturalType, Phrase.naturalType, fraction, DataType.literalDefault]
    rw [meaning, ok_bind, ← natural, ← show _ = inner.elaborate scope _ from builds _, ← single]
    cases pending with
    | literal written =>
        rw [toOption_cast_literal, Pending.single?, Option.filter_some]
        by_cases suits : written.suits target = true <;> simp [suits, Pending.build, Literal.node?]
    | neg _ | binary _ _ _ _ =>
        simp [Operand.cast, Pending.single?, toOption_convert, Option.map_bind]
  · rw [toOption_bind, same inner.naturalType, single_of_mixed mixed]
    simp [Operand.cast, toOption_convert, Option.map_eq_bind, Option.bind_assoc, side]

theorem settle_side (expected : DataType) (context : String) (place : Location) :
    (inner.operand scope >>= Operand.settle expected context place).toOption =
      inner.elaborate scope expected >>= Node.ofType? expected :=
  fits.settle expected context place

end Inner

theorem toOption_lookup (scope : Scope) (name : String) (place : Location) :
    (scope.lookup name place).toOption = scope.find? name := by
  cases found : scope.find? name <;> simp [Scope.lookup, found]

theorem toOption_lookupFunction (scope : Scope) (name : String) (place : Location) :
    (scope.lookupFunction name place).toOption = scope.function? name := by
  cases found : scope.function? name <;> simp [Scope.lookupFunction, found]

theorem ite_none_bind {α β : Type} (missing : Prop) [Decidable missing] (found : Option α)
    (next : α → Option β) :
    (if missing then none else found).bind next = if missing then none else found.bind next := by
  split <;> rfl

theorem toOption_arguments {scope : Scope} {given : List Phrase}
    (fits : ∀ phrase ∈ given, Fits (phrase.operand scope) (phrase.side scope))
    (name : String) (position : Nat) (types : List DataType) :
    ((arguments scope name position given types).toOption >>= fun nodes =>
        if nodes.length < types.length then none else some nodes) =
      elaborateAll scope given types := by
  induction given generalizing position types with
  | nil => cases types <;> simp [arguments, elaborateAll]
  | cons phrase given ih =>
      cases types with
      | nil => simp [arguments, elaborateAll]
      | cons type types =>
          have first := settle_side (fits phrase (by simp)) type
            ("argument " ++ (position + 1).repr ++ " of '" ++ name ++ "'") phrase.start.location
          have others := ih (fun phrase member => fits phrase (by simp [member])) (position + 1)
            types
          -- Both settle the first argument; what is counted behind it is one less on both sides.
          simp only [elaborateAll, ← bind_assoc (phrase.elaborate scope type)]
          rw [← first, ← others]
          simp [arguments, Option.bind_assoc, ite_none_bind]

theorem call_fits {scope : Scope} {given : List Phrase}
    (fits : ∀ phrase ∈ given, Fits (phrase.operand scope) (phrase.side scope))
    (name closing : Token) :
    Fits ((call name given closing).operand scope) ((call name given closing).side scope) := by
  simp only [operand, side, isLiteral, elaborate]
  refine .of_toOption fun _ => ?_
  simp only [← toOption_arguments fits name.text 0, toOption_bind, toOption_lookupFunction]
  simp [Option.map_eq_bind, Option.bind_assoc, apply_ite, ite_none_bind]

theorem compound_type {target : Variable} {other : Side} {operator : Arithmetic} {node : Node}
    (joined : Side.unified target.type ⟨false, fun _ => some target.get⟩ other >>=
      arithmeticNode operator = some node) : node.type = some target.type := by
  obtain ⟨sides, unified, joined⟩ := Option.bind_eq_some_iff.mp joined
  have type : sides.1 = target.type := by
    unfold Side.unified at unified
    cases literal : other.isLiteral with
    | true =>
        simp only [literal, Option.bind_eq_bind, Option.bind_some, Variable.get,
          Option.bind_eq_some_iff, Option.some.injEq] at unified
        obtain ⟨second, _, rfl⟩ := unified
        rfl
    | false =>
        simp only [literal, Option.bind_eq_bind, Option.bind_some, Variable.get,
          Option.bind_eq_some_iff, Option.ite_none_right_eq_some, Option.some.injEq] at unified
        obtain ⟨second, _, _, rfl⟩ := unified
        rfl
  simp only [arithmeticNode] at joined
  split at joined <;> cases joined
  rw [type]

theorem compound_fits {scope : Scope} {value : Phrase}
    (fits : Fits (value.operand scope) (value.side scope)) (operator : Arithmetic)
    (target : Variable) (place start : Location) :
    (value.operand scope >>= (Assignment.compound operator).stored target place start).toOption =
      Side.unified target.type ⟨false, fun _ => some target.get⟩ (value.side scope) >>=
        arithmeticNode operator := by
  have own : Fits (.ok (.typed target.get)) ⟨false, fun _ => some target.get⟩ :=
    .typed fun _ => rfl
  have settled :=
    (arithmetic_fits own fits operator place).settle target.type "assigned value" start
  rw [ok_bind, bind_assoc] at settled
  refine settled.trans ?_
  -- Settling asks for the type of the variable, which the node has already.
  show (Side.unified _ _ _ >>= arithmeticNode operator) >>= _ = _
  cases joined : Side.unified target.type ⟨false, fun _ => some target.get⟩ (value.side scope) >>=
      arithmeticNode operator with
  | none => rfl
  | some node => exact if_pos (compound_type joined)

theorem assign_fits {scope : Scope} {value : Phrase}
    (fits : Fits (value.operand scope) (value.side scope)) (name : Token) (form : Assignment)
    (mark : Token) :
    Fits ((assign name form mark value).operand scope)
      ((assign name form mark value).side scope) := by
  refine .of_toOption fun _ => ?_
  cases form with
  | plain =>
      have stored (target : Variable) :=
        settle_side fits target.type "assigned value" value.start.location
      simp only [elaborate, ← bind_assoc (value.elaborate scope _)]
      simp only [← stored]
      simp [operand, toOption_lookup, Assignment.stored, Option.map_eq_bind, Option.bind_assoc,
        apply_ite, ite_none_bind]
  | compound operator =>
      have stored (target : Variable) :=
        compound_fits fits operator target mark.location value.start.location
      simp only [elaborate, ← bind_assoc (Side.unified _ _ _)]
      simp only [side] at stored
      simp only [← stored]
      simp [operand, toOption_lookup, Option.map_eq_bind, Option.bind_assoc, apply_ite,
        ite_none_bind]

theorem operand_fits (scope : Scope) (phrase : Phrase) :
    Fits (phrase.operand scope) (phrase.side scope) := by
  induction phrase with
  | number token =>
      simp only [operand, side, isLiteral, elaborate]
      exact .pending fun _ => rfl
  | reference name =>
      refine .of_toOption fun _ => ?_
      simp [operand, elaborate, toOption_lookup, Option.map_eq_bind, Option.bind_assoc]
  | call name given closing ih => exact call_fits ih name closing
  | group opening inner ih => simpa only [operand, side, isLiteral, elaborate] using ih
  | negate mark inner ih => exact negate_fits ih mark
  | complement mark inner ih => exact complement_fits ih mark.location
  | cast opening target inner ih => exact cast_fits ih opening target
  | binary operator mark left right first second =>
      cases operator with
      | connective operator =>
          exact connective_fits first second operator mark.location
      | comparison operator => exact comparison_fits first second operator mark.location
      | arithmetic operator => exact arithmetic_fits first second operator mark.location
  | assign name form mark value ih => exact assign_fits ih name form mark

theorem freeze_eq_ok {scope : Scope} {phrase : Phrase} {expected : DataType} {node : Node} :
    (phrase.operand scope >>= Operand.freeze expected) = .ok node ↔
      phrase.elaborate scope expected = some node := by
  rw [← toOption_eq_some, (operand_fits scope phrase).freeze expected]
  rfl

theorem settled_eq_ok {scope : Scope} {phrase : Phrase} {expected : DataType} {context : String}
    {node : Node} :
    phrase.settled scope expected context = .ok node ↔ phrase.Yields scope expected node := by
  have settled := settle_side (operand_fits scope phrase) expected context phrase.start.location
  rw [← toOption_eq_some, Phrase.settled, settled]
  simp [Option.bind_eq_some_iff, Node.ofType?, Yields]

theorem leaves_eq_ok {result : Except ParseError Node} {left after : State} {node : Node} :
    (result >>= fun value => .ok (value, left)) = .ok (node, after) ↔
      after = left ∧ result = .ok node := by
  cases result <;> simp [and_comm, eq_comm]

open Parse

theorem frozen_reads {expected : DataType} {state after : State} {found : Operand} {node : Node}
    (ran : outcome Expression.operand state = .ok (found, after))
    (frozen : found.freeze expected = .ok node) :
    ∃ tokens phrase, state.Reads tokens after ∧ Derives .expression tokens [phrase] ∧
      phrase.elaborate state.scope expected = some node := by
  obtain ⟨tokens, phrase, reads, derives, meaning⟩ := operand_spells _ _ _ ran
  exact ⟨tokens, phrase, reads, derives, freeze_eq_ok.mp (by rw [meaning, ok_bind, frozen])⟩

theorem ofType_reads {expected : DataType} {context : String} {state after : State} {node : Node}
    (done : outcome (Expression.ofType expected context) state = .ok (node, after)) :
    ∃ tokens phrase, state.Reads tokens after ∧ Derives .expression tokens [phrase] ∧
      phrase.Yields state.scope expected node := by
  obtain ⟨tokens, phrase, reads, derives, settled⟩ := typed_spells operand_spells done
  exact ⟨tokens, phrase, reads, derives, settled_eq_ok.mp settled⟩

/-- Reading an expression, with its literals pending until something types them, gives the node
that elaborating the phrase as a whole gives, and fails where that fails. -/
theorem reading_elaborates (state : State) (expected : DataType) :
    (∀ tokens rest phrase, Derives .expression tokens [phrase] → state.unread = tokens ++ rest →
      Ends rest → ∀ node after,
        (outcome (do
            let found ← Expression.operand
            Parse.ofExcept (found.freeze expected)) state = .ok (node, after) ↔
          after = state.behind rest ∧ phrase.elaborate state.scope expected = some node) ∧
        ∀ context,
          (outcome (Expression.ofType expected context) state = .ok (node, after) ↔
            after = state.behind rest ∧ phrase.Yields state.scope expected node)) ∧
    (∀ node after,
      outcome (do
        let found ← Expression.operand
        Parse.ofExcept (found.freeze expected)) state = .ok (node, after) →
      ∃ tokens phrase, state.Reads tokens after ∧ Derives .expression tokens [phrase] ∧
        phrase.elaborate state.scope expected = some node) ∧
    (∀ context node after, outcome (Expression.ofType expected context) state = .ok (node, after) →
      ∃ tokens phrase, state.Reads tokens after ∧ Derives .expression tokens [phrase] ∧
        phrase.Yields state.scope expected node) ∧
    ∀ phrase : Phrase, phrase.isLiteral = true →
      (phrase.elaborate state.scope expected = none ↔
        (∃ written ∈ phrase.literals, written.node? expected = none) ∨
          phrase.hasRemainder = true ∧ expected.isFloat = true) ∧
      ∀ node, phrase.elaborate state.scope expected = some node → Uniform expected node := by
  refine ⟨?_, ?_, ?_, ?_⟩
  -- On tokens that derive a phrase the parsers are complete; otherwise they are sound.
  · intro tokens rest phrase derives unread ends node after
    have parses := operand_parses derives unread ends
    rw [Parses] at parses
    constructor
    · rw [← freeze_eq_ok]
      simp only [outcome_bind, parses, outcome_ofExcept, bind_assoc, ok_bind]
      rw [← bind_assoc, leaves_eq_ok]
    · intro context
      have start := next_eq_start unread derives
      rw [← settled_eq_ok, Expression.ofType, typed_parses parses start expected context,
        leaves_eq_ok]
  · intro node after done
    simp only [outcome_bind, outcome_ofExcept, bind_eq_ok, Except.ok.injEq, Prod.mk.injEq,
      Prod.exists] at done
    obtain ⟨found, _, ran, _, frozen, rfl, rfl⟩ := done
    exact frozen_reads ran frozen
  · intro context node after done
    exact ofType_reads done
  · intro phrase literal
    exact ⟨literal_fails_iff literal, fun node => literal_uniform literal⟩

/-- `3 * 2 < n`, and the product in it. -/
def product : Phrase :=
  .binary (.arithmetic .mul) (Lexeme.operator "*").token (.number (Lexeme.token ⟨.number, "3"⟩))
    (.number (Lexeme.token ⟨.number, "2"⟩))

def productBelow : Phrase :=
  .binary (.comparison .lt) (Lexeme.operator "<").token product
    (.reference (Lexeme.token ⟨.identifier, "n"⟩))

/-- Before `3 * 2 < n;`, where `n` is of type `i64`. -/
def beforeProduct : State where
  unread := List.map Lexeme.token [⟨.number, "3"⟩, .operator "*", ⟨.number, "2"⟩, .operator "<",
    ⟨.identifier, "n"⟩, .punctuation ";"]
  finish := Lexeme.endOfInput.token
  scope := ⟨[⟨"n", .i64, .globalVariable⟩], [], none⟩
  function := none
  loopDepth := 0
  closes := rfl

theorem productBelow_derives :
    Derives .expression (beforeProduct.unread.take 5) [productBelow] :=
  have product : Derives (.binary (BinaryOperator.levels.drop 4))
      (beforeProduct.unread.take 3) [product] :=
    .tighter (.joined (.tighter (.prefixed (.plain (.number rfl)))) (by simp) rfl
      (.prefixed (.plain (.number rfl))))
  .operators (.tighter (.tighter (.tighter (.joined (.tighter product) (by simp) rfl
    (.tighter (.tighter (.prefixed (.plain (.reference rfl)))))))))

/-- The product takes the type of `n`, not that of the condition. -/
theorem productBelow_reads :
    let node : Node := ⟨.lt, none, some .i32,
      [⟨.mul, none, some .i64, [⟨.number, some (.int 3), some .i64, []⟩,
        ⟨.number, some (.int 2), some .i64, []⟩]⟩,
        ⟨.globalGet, some (.name "n"), some .i64, []⟩]⟩
    let after := beforeProduct.behind (beforeProduct.unread.drop 5)
    outcome (Expression.ofType .i32 "condition") beforeProduct = .ok (node, after) ∧
      (∃ tokens phrase, beforeProduct.Reads tokens after ∧ Derives .expression tokens [phrase] ∧
        phrase.Yields beforeProduct.scope .i32 node) ∧
      (∃ tokens phrase, beforeProduct.Reads tokens after ∧ Derives .expression tokens [phrase] ∧
        phrase.elaborate beforeProduct.scope .i32 = some node) ∧
      (∀ factors, product.elaborate beforeProduct.scope .i64 = some factors →
        Uniform .i64 factors) := by
  intro node after
  have agrees := reading_elaborates beforeProduct .i32
  have read := agrees.1 _ (beforeProduct.unread.drop 5) _ productBelow_derives rfl
    (ends_punctuation rfl (by decide)) node after
  have typed := (read.2 "condition").mpr ⟨rfl, rfl, rfl⟩
  have frozen := read.1.mpr ⟨rfl, rfl⟩
  have uniform := ((reading_elaborates beforeProduct .i64).2.2.2 product rfl).2
  exact ⟨typed, agrees.2.2.1 _ _ _ typed, agrees.2.1 _ _ frozen, uniform⟩

end Phrase

end ScalarC
