import Mathlib.Data.List.Forall2
import ScalarC.Proofs.Outcome
import ScalarC.Proofs.Twins.Renaming

/-!
Twin runs. The tokens of two streams stand for each other one by one: they may
differ in their places, and identifiers may be renamed. A parser is alike on
both if it always answers the same up to renaming, or fails both times for the
same cause at tokens that stand for each other. `Alike.bind` is the step of all
proofs that follow.
-/

namespace ScalarC

open Parse

/-- Tokens that stand for each other in two streams. Renaming merges no identifiers and turns
none into a type or out of one. -/
structure Twins where
  rename : String → String
  injective : Function.Injective rename
  types : ∀ word ∈ ["int", "long", "float", "double"], rename word = word
  pair : Token → Token → Prop
  lexeme : ∀ {first second : Token}, pair first second →
    second.toLexeme = first.toLexeme.renamed rename

namespace Twins

variable (twins : Twins)

inductive Places : Location → Location → Prop where
  | intro {first second : Token} :
      twins.pair first second → Places first.location second.location

structure Identifiers (first second : Token) : Prop where
  pair : twins.pair first second
  named : first.kind = .identifier

/-- Errors for the same cause. A name in an error is the text of the token at its place. -/
inductive Errors : ParseError → ParseError → Prop where
  | malformed (fault : GrammarFault) {place other : Location} :
      twins.Places place other →
      Errors (.malformed fault place) (.malformed (fault.renamed twins.rename) other)
  | typeMismatch {fault also : TypeFault} {place other : Location} :
      fault.Renames twins.rename also → twins.Places place other →
      Errors (.typeMismatch fault place) (.typeMismatch also other)
  | unknownType {first second : Token} :
      twins.pair first second →
      Errors (.unknownType first.text first.location) (.unknownType second.text second.location)
  | duplicateSymbol {first second : Token} :
      twins.Identifiers first second →
      Errors (.duplicateSymbol first.text first.location)
        (.duplicateSymbol second.text second.location)
  | undeclaredSymbol {first second : Token} :
      twins.Identifiers first second →
      Errors (.undeclaredSymbol first.text first.location)
        (.undeclaredSymbol second.text second.location)
  | constAssignment {first second : Token} :
      twins.Identifiers first second →
      Errors (.constAssignment first.text first.location)
        (.constAssignment second.text second.location)

inductive Agree {α β : Type} (related : α → β → Prop) :
    Except ParseError α → Except ParseError β → Prop where
  | ok {value : α} {other : β} : related value other → Agree related (.ok value) (.ok other)
  | error {error other : ParseError} :
      twins.Errors error other → Agree related (.error error) (.error other)

structure States (first second : State) : Prop where
  unread : List.Forall₂ twins.pair first.unread second.unread
  finish : twins.pair first.finish second.finish
  scope : second.scope = first.scope.renamed twins.rename
  function : second.function = first.function.map (Enclosing.renamed twins.rename)
  loopDepth : second.loopDepth = first.loopDepth

def After {α β : Type} (related : α → β → Prop) (found : α × State) (given : β × State) : Prop :=
  related found.1 given.1 ∧ twins.States found.2 given.2

/-- Parsers that agree in all states that are twins. -/
structure Alike {α β : Type} (related : α → β → Prop) (parser : Parse α) (other : Parse β) :
    Prop where
  agree : ∀ {first second : State}, twins.States first second →
    twins.Agree (twins.After related) (outcome parser first) (outcome other second)

def Nodes (node other : Node) : Prop := other = node.renamed twins.rename

def NodeLists (nodes others : List Node) : Prop :=
  others = nodes.map (Node.renamed twins.rename)

variable {twins : Twins}

/-! Words of types. -/

theorem ofWord?_eq_none {word : String} :
    DataType.ofWord? word = none ↔ word ∉ ["int", "long", "float", "double"] := by
  simp only [DataType.ofWord?]
  split_ifs <;> simp_all

theorem ofWord?_rename (word : String) :
    DataType.ofWord? (twins.rename word) = DataType.ofWord? word := by
  by_cases type : word ∈ ["int", "long", "float", "double"]
  · rw [twins.types word type]
  · have other : twins.rename word ∉ ["int", "long", "float", "double"] := by
      intro renamed
      have fixed := twins.types _ renamed
      rw [twins.injective fixed] at renamed
      exact type renamed
    rw [ofWord?_eq_none.mpr type, ofWord?_eq_none.mpr other]

/-! Tokens. -/

section Tokens

variable {first second : Token} (pair : twins.pair first second)
include pair

theorem kind_eq : second.kind = first.kind := by
  rw [twins.lexeme pair, Lexeme.renamed_kind]

theorem text_of_other (other : first.kind ≠ .identifier) : second.text = first.text := by
  rw [twins.lexeme pair, Lexeme.renamed_of_other other]

theorem places : twins.Places first.location second.location :=
  .intro pair

theorem lexeme_eq_iff {mark : Lexeme} (other : mark.kind ≠ .identifier) :
    second.toLexeme = mark ↔ first.toLexeme = mark := by
  rw [twins.lexeme pair, Lexeme.renamed_eq_iff other]

theorem ofWord?_text : DataType.ofWord? second.text = DataType.ofWord? first.text := by
  by_cases named : first.kind = .identifier
  · rw [twins.lexeme pair, Lexeme.renamed_text named, ofWord?_rename]
  · rw [text_of_other pair named]

end Tokens

theorem streams_get {first second : List Token} (streams : List.Forall₂ twins.pair first second)
    (index : Nat) : Option.Rel twins.pair first[index]? second[index]? := by
  induction streams generalizing index with
  | nil => exact .none
  | cons pair _ ih =>
      cases index with
      | zero => exact .some pair
      | succ index => exact ih index

theorem Identifiers.text {first second : Token} (names : twins.Identifiers first second) :
    second.text = twins.rename first.text := by
  rw [twins.lexeme names.pair, Lexeme.renamed_text names.named]

/-! Results. -/

namespace Agree

variable {α β γ δ : Type} {related : α → β → Prop} {further : γ → δ → Prop}

theorem bind {result : Except ParseError α} {other : Except ParseError β}
    {next : α → Except ParseError γ} {later : β → Except ParseError δ}
    (agree : twins.Agree related result other)
    (onward : ∀ value given, related value given → twins.Agree further (next value) (later given)) :
    twins.Agree further (result >>= next) (other >>= later) := by
  cases agree with
  | ok both => exact onward _ _ both
  | error errors => exact .error errors

theorem mono {weaker : α → β → Prop} {result : Except ParseError α} {other : Except ParseError β}
    (agree : twins.Agree related result other)
    (implies : ∀ value given, related value given → weaker value given) :
    twins.Agree weaker result other := by
  cases agree with
  | ok both => exact .ok (implies _ _ both)
  | error errors => exact .error errors

theorem ite {choice also : Prop} [Decidable choice] [Decidable also] (same : also ↔ choice)
    {result instead : Except ParseError α} {other otherwise : Except ParseError β}
    (holds : choice → twins.Agree related result other)
    (fails : ¬choice → twins.Agree related instead otherwise) :
    twins.Agree related (if choice then result else instead)
      (if also then other else otherwise) := by
  by_cases chosen : choice
  · rw [if_pos chosen, if_pos (same.mpr chosen)]
    exact holds chosen
  · rw [if_neg chosen, if_neg (chosen ∘ same.mp)]
    exact fails chosen

end Agree

/-! States. -/

namespace States

variable {first second : State} (states : twins.States first second)
include states

theorem next : twins.pair first.next second.next := by
  have unread := states.unread
  unfold State.next
  cases left : first.unread with
  | nil =>
      rw [left, List.forall₂_nil_left_iff] at unread
      rw [unread]
      exact states.finish
  | cons token rest =>
      rw [left] at unread
      obtain ⟨other, others, pair, -, right⟩ := List.forall₂_cons_left_iff.mp unread
      rw [right]
      exact pair

theorem count : second.unread.length = first.unread.length :=
  states.unread.length_eq.symm

theorem ahead (places : Nat) :
    Option.Rel twins.pair first.unread[places]? second.unread[places]? :=
  streams_get states.unread places

theorem sees_ahead (places : Nat) {lexeme : Lexeme} (mark : lexeme.kind ≠ .identifier) :
    second.unread[places]?.any (fun token => token.toLexeme = lexeme) =
      first.unread[places]?.any fun token => token.toLexeme = lexeme := by
  have pairs := states.ahead places
  generalize first.unread[places]? = token? at pairs
  generalize second.unread[places]? = other? at pairs
  cases pairs with
  | none => rfl
  | some pair => simp [lexeme_eq_iff pair mark]

theorem withScope {scope renamed : Scope} (same : renamed = scope.renamed twins.rename) :
    twins.States { first with scope } { second with scope := renamed } :=
  ⟨states.unread, states.finish, same, states.function, states.loopDepth⟩

theorem withFunction (function : Option Enclosing) :
    twins.States { first with function }
      { second with function := function.map (Enclosing.renamed twins.rename) } :=
  ⟨states.unread, states.finish, states.scope, rfl, states.loopDepth⟩

theorem withLoops {depth other : Nat} (same : other = depth) :
    twins.States { first with loopDepth := depth } { second with loopDepth := other } :=
  ⟨states.unread, states.finish, states.scope, states.function, same⟩

end States

/-! Parsers. -/

namespace Alike

variable {α β γ δ : Type} {related : α → β → Prop} {further : γ → δ → Prop}

theorem bind {parser : Parse α} {other : Parse β} {next : α → Parse γ} {later : β → Parse δ}
    (alike : twins.Alike related parser other)
    (onward : ∀ value given, related value given → twins.Alike further (next value) (later given)) :
    twins.Alike further (parser >>= next) (other >>= later) := by
  constructor
  intro first second states
  rw [outcome_bind, outcome_bind]
  apply (alike.agree states).bind
  intro found given after
  exact (onward _ _ after.1).agree after.2

theorem pure {value : α} {other : β} (both : related value other) :
    twins.Alike related (Pure.pure value) (Pure.pure other) :=
  ⟨fun states => .ok ⟨both, states⟩⟩

theorem raise {error other : ParseError} (errors : twins.Errors error other) :
    twins.Alike related (Parse.raise error) (Parse.raise other) :=
  ⟨fun _ => .error errors⟩

theorem ofExcept {result : Except ParseError α} {other : Except ParseError β}
    (agree : twins.Agree related result other) :
    twins.Alike related (Parse.ofExcept result) (Parse.ofExcept other) := by
  constructor
  intro first second states
  rw [outcome_ofExcept, outcome_ofExcept]
  exact agree.bind fun _ _ both => .ok ⟨both, states⟩

theorem ite {choice also : Prop} [Decidable choice] [Decidable also] (same : also ↔ choice)
    {parser instead : Parse α} {other otherwise : Parse β}
    (holds : choice → twins.Alike related parser other)
    (fails : ¬choice → twins.Alike related instead otherwise) :
    twins.Alike related (if choice then parser else instead)
      (if also then other else otherwise) := by
  constructor
  intro first second states
  rw [outcome_ite, outcome_ite]
  exact .ite same (fun chosen => (holds chosen).agree states) fun chosen =>
    (fails chosen).agree states

theorem mono {weaker : α → β → Prop} {parser : Parse α} {other : Parse β}
    (alike : twins.Alike related parser other)
    (implies : ∀ value given, related value given → weaker value given) :
    twins.Alike weaker parser other :=
  ⟨fun states => (alike.agree states).mono fun _ _ after => ⟨implies _ _ after.1, after.2⟩⟩

end Alike

section Primitives

variable {α : Type}

theorem peek_alike : twins.Alike twins.pair peek peek :=
  ⟨fun states => .ok ⟨states.next, states⟩⟩

theorem peekAhead_alike (places : Nat) :
    twins.Alike (Option.Rel twins.pair) (peekAhead places) (peekAhead places) :=
  ⟨fun states => .ok ⟨states.ahead places, states⟩⟩

theorem unreadCount_alike : twins.Alike Eq unreadCount unreadCount :=
  ⟨fun states => .ok ⟨states.count.symm, states⟩⟩

theorem advance_next {first second : State} (states : twins.States first second) :
    twins.Agree
      (twins.After fun token other => token = first.next ∧ twins.pair token other)
      (outcome advance first) (outcome advance second) := by
  have pair := states.next
  have unread := states.unread
  cases left : first.unread with
  | nil =>
      rw [left, List.forall₂_nil_left_iff] at unread
      have ended {state : State} (nothing : state.unread = []) :
          outcome advance state = .ok (state.next, state) := by
        simp [outcome, advance, nothing, State.next]
      rw [ended left, ended unread]
      exact .ok ⟨⟨rfl, pair⟩, states⟩
  | cons token rest =>
      rw [left] at unread
      obtain ⟨other, others, _, behind, right⟩ := List.forall₂_cons_left_iff.mp unread
      rw [State.next_cons left, State.next_cons right] at pair
      rw [outcome_advance left, outcome_advance right, State.next_cons left]
      exact .ok ⟨⟨rfl, pair⟩, behind, states.finish, states.scope, states.function,
        states.loopDepth⟩

theorem advance_alike : twins.Alike twins.pair advance advance :=
  ⟨fun states => (advance_next states).mono fun _ _ after => ⟨after.1.2, after.2⟩⟩

theorem advance_onward {β γ : Type} {related : β → γ → Prop} {kind : TokenKind}
    {next : Token → Parse β} {later : Token → Parse γ}
    (onward : ∀ token other, twins.pair token other → token.kind = kind →
      twins.Alike related (next token) (later other))
    {first second : State} (states : twins.States first second) (is : first.next.kind = kind) :
    twins.Agree (twins.After related) (outcome (advance >>= next) first)
      (outcome (advance >>= later) second) := by
  rw [outcome_bind, outcome_bind]
  apply (advance_next states).bind
  intro found given after
  obtain ⟨⟨same, pair⟩, behind⟩ := after
  exact (onward _ _ pair (by rw [same, is])).agree behind

theorem peek_onward {β γ : Type} {related : β → γ → Prop} {next : Token → Parse β}
    {later : Token → Parse γ}
    (onward : ∀ {first second : State}, twins.States first second →
      twins.Agree (twins.After related) (outcome (next first.next) first)
        (outcome (later second.next) second)) :
    twins.Alike related (peek >>= next) (peek >>= later) := by
  constructor
  intro first second states
  rw [outcome_bind, outcome_bind, outcome_peek, outcome_peek, ok_bind, ok_bind]
  exact onward states

theorem scope_alike :
    twins.Alike (fun scope renamed => renamed = scope.renamed twins.rename) Parse.scope
      Parse.scope :=
  ⟨fun states => .ok ⟨states.scope, states⟩⟩

theorem setScope_alike {scope renamed : Scope} (same : renamed = scope.renamed twins.rename) :
    twins.Alike Eq (setScope scope) (setScope renamed) :=
  ⟨fun states => .ok ⟨rfl, states.withScope same⟩⟩

theorem enclosing_alike :
    twins.Alike (fun function renamed => renamed = function.map (Enclosing.renamed twins.rename))
      enclosing enclosing :=
  ⟨fun states => .ok ⟨states.function, states⟩⟩

theorem setEnclosing_alike (function : Option Enclosing) :
    twins.Alike Eq (setEnclosing function)
      (setEnclosing (function.map (Enclosing.renamed twins.rename))) :=
  ⟨fun states => .ok ⟨rfl, states.withFunction function⟩⟩

theorem loopDepth_alike : twins.Alike Eq loopDepth loopDepth :=
  ⟨fun states => .ok ⟨states.loopDepth.symm, states⟩⟩

theorem inLoop_alike {β : Type} {related : α → β → Prop} {parser : Parse α} {other : Parse β}
    (alike : twins.Alike related parser other) :
    twins.Alike related (inLoop parser) (inLoop other) := by
  constructor
  intro first second states
  rw [outcome_inLoop, outcome_inLoop]
  have inside := alike.agree (states.withLoops (congrArg (· + 1) states.loopDepth))
  refine inside.bind fun found given after => .ok ⟨after.1, ?_⟩
  exact after.2.withLoops (congrArg (· - 1) after.2.loopDepth)

theorem onlyIf_alike (wanted : Bool) {parser other : Parse Node}
    (alike : twins.Alike twins.Nodes parser other) :
    twins.Alike twins.NodeLists (onlyIf wanted parser) (onlyIf wanted other) := by
  unfold onlyIf
  refine .ite .rfl (fun _ => ?_) fun _ => .pure rfl
  exact alike.bind fun node other same => .pure (congrArg (· :: []) same)

theorem fail_alike {related : α → α → Prop} {fault other : GrammarFault}
    (same : other = fault.renamed twins.rename) :
    twins.Alike related (Parse.fail fault) (Parse.fail other) := by
  subst same
  exact peek_alike.bind fun _ _ pair => .raise (.malformed fault (places pair))

section Marks

variable {lexeme : Lexeme} (mark : lexeme.kind ≠ .identifier)
include mark

theorem sees_alike : twins.Alike Eq (sees lexeme) (sees lexeme) :=
  peek_alike.bind fun _ _ pair => .pure (by simp [lexeme_eq_iff pair mark])

theorem seesAhead_alike (places : Nat) :
    twins.Alike Eq (seesAhead places lexeme) (seesAhead places lexeme) := by
  constructor
  intro first second states
  rw [outcome_seesAhead, outcome_seesAhead, states.sees_ahead places mark]
  exact .ok ⟨rfl, states⟩

theorem accept_alike : twins.Alike Eq (accept lexeme) (accept lexeme) := by
  apply peek_alike.bind
  intro token other pair
  refine .ite (lexeme_eq_iff pair mark) (fun _ => ?_) fun _ => .pure rfl
  exact advance_alike.bind fun _ _ _ => .pure rfl

theorem expect_alike (context : String) :
    twins.Alike Eq (expect lexeme context) (expect lexeme context) := by
  apply peek_alike.bind
  intro token other pair
  refine .ite (lexeme_eq_iff pair mark) (fun _ => ?_) fun _ => ?_
  · exact advance_alike.bind fun _ _ _ => .pure rfl
  · refine .raise ?_
    rw [twins.lexeme pair]
    exact .malformed (.missingMark lexeme.text context token.toLexeme) (places pair)

end Marks

theorem expectPunctuation_alike (mark context : String) :
    twins.Alike Eq (expectPunctuation mark context) (expectPunctuation mark context) :=
  expect_alike (by simp) context

theorem seesIdentifierAhead_alike :
    twins.Alike Eq seesIdentifierAhead seesIdentifierAhead := by
  refine (peekAhead_alike 1).bind fun token? other? pairs => .pure ?_
  cases pairs with
  | none => rfl
  | some pair => simp [kind_eq pair]

theorem expectIdentifier_alike :
    twins.Alike twins.Identifiers expectIdentifier expectIdentifier := by
  constructor
  intro first second states
  have pair := states.next
  simp only [expectIdentifier, outcome_bind, outcome_peek, ok_bind, outcome_ite]
  refine .ite (by rw [kind_eq pair]) (fun named => ?_) fun _ => ?_
  · refine (advance_next states).mono fun token other after => ⟨⟨after.1.2, ?_⟩, after.2⟩
    rw [after.1.1, named]
  · rw [outcome_raise, outcome_raise, twins.lexeme pair]
    exact .error (.malformed (.missingIdentifier first.next.toLexeme) (places pair))

end Primitives

end Twins

end ScalarC
