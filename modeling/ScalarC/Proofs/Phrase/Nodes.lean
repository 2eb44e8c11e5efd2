import ScalarC.Proofs.Phrase.Elaboration

/-!
The nodes a phrase can have, whatever type its place gives a literal. `Gives`
says once what elaboration checked for every kind of node, so that what holds of
typed trees is proved by induction on it.
-/

namespace ScalarC

namespace Phrase

/-- The nodes of phrases one by one. A phrase alone has one node. -/
inductive Gives (scope : Scope) : List Phrase → List Node → Prop where
  | nil : Gives scope [] []
  | cons {phrase : Phrase} {phrases : List Phrase} {node : Node} {nodes : List Node} :
      Gives scope [phrase] [node] → Gives scope phrases nodes →
      Gives scope (phrase :: phrases) (node :: nodes)
  | literal {phrase : Phrase} {literal : Literal} {type : DataType} {node : Node} :
      phrase.single? = some literal → literal.node? type = some node →
      Gives scope [phrase] [node]
  | reference {name : Token} {source : Variable} :
      scope.find? name.text = some source → Gives scope [.reference name] [source.get]
  | call {name closing : Token} {given : List Phrase} {nodes : List Node}
      {signature : Signature} :
      scope.function? name.text = some signature → Gives scope given nodes →
      nodes.map Node.type = signature.parameters.map some →
      Gives scope [.call name given closing]
        [⟨.call, some (.name name.text), signature.returnType, nodes⟩]
  | group {opening : Token} {inner : Phrase} {node : Node} :
      Gives scope [inner] [node] → Gives scope [.group opening inner] [node]
  | negation {mark : Token} {inner : Phrase} {node : Node} {type : DataType} :
      inner.single? = none → Gives scope [inner] [node] → node.type = some type →
      Gives scope [.negate mark inner] [⟨.neg, none, some type, [node]⟩]
  | complement {mark : Token} {inner : Phrase} {node : Node} :
      Gives scope [inner] [node] → node.type = some .i32 →
      Gives scope [.complement mark inner] [⟨.not, none, some .i32, [node]⟩]
  | conversion {opening : Token} {target other : DataType} {inner : Phrase} {node : Node} :
      inner.single?.filter (·.suits target) = none → Gives scope [inner] [node] →
      node.type = some other → other ≠ target →
      Gives scope [.cast opening target inner] [⟨.cast, none, some target, [node]⟩]
  | unchanged {opening : Token} {target : DataType} {inner : Phrase} {node : Node} :
      Gives scope [inner] [node] → node.type = some target →
      Gives scope [.cast opening target inner] [node]
  | connective {operator : Connective} {mark : Token} {left right : Phrase}
      {first second : Node} :
      Gives scope [left] [first] → Gives scope [right] [second] → first.type = some .i32 →
      second.type = some .i32 →
      Gives scope [.binary (.connective operator) mark left right]
        [⟨operator.tag, none, some .i32, [first, second]⟩]
  | comparison {operator : Comparison} {mark : Token} {left right : Phrase}
      {first second : Node} {type : DataType} :
      Gives scope [left] [first] → Gives scope [right] [second] → first.type = some type →
      second.type = some type →
      Gives scope [.binary (.comparison operator) mark left right]
        [⟨operator.tag, none, some .i32, [first, second]⟩]
  | arithmetic {operator : Arithmetic} {mark : Token} {left right : Phrase}
      {first second : Node} {type : DataType} :
      Gives scope [left] [first] → Gives scope [right] [second] → first.type = some type →
      second.type = some type → (operator = .rem → type.isInteger = true) →
      Gives scope [.binary (.arithmetic operator) mark left right]
        [⟨operator.tag, none, some type, [first, second]⟩]
  | assignment {name mark : Token} {value : Phrase} {node : Node} {target : Variable} :
      scope.find? name.text = some target → target.storage ≠ .globalConstant →
      Gives scope [value] [node] → node.type = some target.type →
      Gives scope [.assign name .plain mark value] [target.set node]
  | compound {operator : Arithmetic} {name mark : Token} {value : Phrase} {node : Node}
      {target : Variable} :
      scope.find? name.text = some target → target.storage ≠ .globalConstant →
      Gives scope [value] [node] → node.type = some target.type →
      (operator = .rem → target.type.isInteger = true) →
      Gives scope [.assign name (.compound operator) mark value]
        [target.set ⟨operator.tag, none, some target.type, [target.get, node]⟩]

/-- Literals are given the type a side of them is asked for. -/
def Side.Obeys (side : Side) : Prop :=
  side.isLiteral = true → ∀ type node, side.nodeAt type = some node → node.type = some type

theorem side_obeys (scope : Scope) (phrase : Phrase) : (phrase.side scope).Obeys :=
  fun literal _ _ elaborated => (literal_uniform literal elaborated).type

theorem unified_eq_some {given type : DataType} {left right : Side} {first second : Node}
    (obeysLeft : left.Obeys) (obeysRight : right.Obeys)
    (unified : Side.unified given left right = some (type, first, second)) :
    (∃ asked, left.nodeAt asked = some first) ∧ (∃ asked, right.nodeAt asked = some second) ∧
      first.type = some type ∧ second.type = some type := by
  unfold Side.unified at unified
  split at unified
  · rename_i leftLiteral rightLiteral
    simp only [Option.bind_eq_bind, Option.bind_eq_some_iff, Option.some.injEq,
      Prod.mk.injEq] at unified
    obtain ⟨_, one, _, other, rfl, rfl, rfl⟩ := unified
    exact ⟨⟨_, one⟩, ⟨_, other⟩, obeysLeft leftLiteral _ _ one, obeysRight rightLiteral _ _ other⟩
  · rename_i leftLiteral rightLiteral
    simp only [Option.bind_eq_bind, Option.bind_eq_some_iff, Option.some.injEq,
      Prod.mk.injEq] at unified
    obtain ⟨_, other, _, typed, _, one, rfl, rfl, rfl⟩ := unified
    exact ⟨⟨_, one⟩, ⟨_, other⟩, obeysLeft leftLiteral _ _ one, typed⟩
  · rename_i leftLiteral rightLiteral
    simp only [Option.bind_eq_bind, Option.bind_eq_some_iff, Option.some.injEq,
      Prod.mk.injEq] at unified
    obtain ⟨_, one, _, typed, _, other, rfl, rfl, rfl⟩ := unified
    exact ⟨⟨_, one⟩, ⟨_, other⟩, typed, obeysRight rightLiteral _ _ other⟩
  · simp only [Option.bind_eq_bind, Option.bind_eq_some_iff, Option.ite_none_right_eq_some,
      Option.some.injEq, Prod.mk.injEq] at unified
    obtain ⟨_, one, _, other, _, typed, same, rfl, rfl, rfl⟩ := unified
    exact ⟨⟨_, one⟩, ⟨_, other⟩, typed, same⟩

theorem ofType_eq_some {expected : DataType} {node value : Node} :
    node.ofType? expected = some value ↔ node = value ∧ node.type = some expected := by
  simp [Node.ofType?, and_comm]

theorem arithmeticNode_eq_some {operator : Arithmetic} {type : DataType} {first second node : Node}
    (joined : arithmeticNode operator (type, first, second) = some node) :
    node = ⟨operator.tag, none, some type, [first, second]⟩ ∧
      (operator = .rem → type.isInteger = true) := by
  simp only [arithmeticNode, Option.ite_none_left_eq_some, not_and, Option.some.injEq] at joined
  exact ⟨joined.2.symm, fun isRem => by simpa [DataType.isFloat] using joined.1 isRem⟩

section Inner

variable {scope : Scope}

theorem elaborateAll_gives {given : List Phrase} {types : List DataType} {nodes : List Node}
    (gives : ∀ phrase ∈ given, ∀ type node, phrase.elaborate scope type = some node →
      Gives scope [phrase] [node])
    (elaborated : elaborateAll scope given types = some nodes) :
    Gives scope given nodes ∧ nodes.map Node.type = types.map some := by
  induction given generalizing types nodes with
  | nil =>
      cases types with
      | nil =>
          cases elaborated
          exact ⟨.nil, rfl⟩
      | cons => cases elaborated
  | cons phrase given ih =>
      cases types with
      | nil => cases elaborated
      | cons type types =>
          simp only [elaborateAll, Option.bind_eq_bind, Option.bind_eq_some_iff, ofType_eq_some,
            Option.some.injEq] at elaborated
          obtain ⟨node, first, _, ⟨rfl, typed⟩, others, rest, rfl⟩ := elaborated
          obtain ⟨all, same⟩ := ih (fun phrase member => gives phrase (by simp [member])) rest
          exact ⟨.cons (gives phrase (by simp) type node first) all, by simp [typed, same]⟩

theorem binary_gives {operator : BinaryOperator} {mark : Token} {left right : Phrase}
    (givesLeft : ∀ type node, left.elaborate scope type = some node → Gives scope [left] [node])
    (givesRight : ∀ type node, right.elaborate scope type = some node → Gives scope [right] [node])
    {expected : DataType} {node : Node}
    (elaborated : (binary operator mark left right).elaborate scope expected = some node) :
    Gives scope [binary operator mark left right] [node] := by
  cases operator with
  | connective operator =>
      simp only [elaborate, Option.bind_eq_bind, Option.bind_eq_some_iff, ofType_eq_some,
        Option.some.injEq] at elaborated
      obtain ⟨_, first, _, ⟨rfl, truth⟩, _, second, _, ⟨rfl, truths⟩, rfl⟩ := elaborated
      exact .connective (givesLeft _ _ first) (givesRight _ _ second) truth truths
  | comparison operator =>
      simp only [elaborate, Option.bind_eq_bind, Option.bind_eq_some_iff, Prod.exists,
        Option.some.injEq] at elaborated
      obtain ⟨type, first, second, unified, rfl⟩ := elaborated
      obtain ⟨⟨_, one⟩, ⟨_, other⟩, typed, same⟩ :=
        unified_eq_some (side_obeys scope left) (side_obeys scope right) unified
      exact .comparison (givesLeft _ _ one) (givesRight _ _ other) typed same
  | arithmetic operator =>
      simp only [elaborate, Option.bind_eq_bind, Option.bind_eq_some_iff, Prod.exists] at elaborated
      obtain ⟨type, first, second, unified, joined⟩ := elaborated
      obtain ⟨⟨_, one⟩, ⟨_, other⟩, typed, same⟩ :=
        unified_eq_some (side_obeys scope left) (side_obeys scope right) unified
      obtain ⟨rfl, integral⟩ := arithmeticNode_eq_some joined
      exact .arithmetic (givesLeft _ _ one) (givesRight _ _ other) typed same integral

theorem assign_gives {name mark : Token} {form : Assignment} {value : Phrase}
    (gives : ∀ type node, value.elaborate scope type = some node → Gives scope [value] [node])
    {expected : DataType} {node : Node}
    (elaborated : (assign name form mark value).elaborate scope expected = some node) :
    Gives scope [assign name form mark value] [node] := by
  cases form with
  | plain =>
      simp only [elaborate, Option.bind_eq_bind, Option.bind_eq_some_iff,
        Option.ite_none_left_eq_some, ofType_eq_some, Option.some.injEq] at elaborated
      obtain ⟨target, found, writable, _, stored, _, ⟨rfl, typed⟩, rfl⟩ := elaborated
      exact .assignment found writable (gives _ _ stored) typed
  | compound operator =>
      simp only [elaborate, Option.bind_eq_bind, Option.bind_eq_some_iff,
        Option.ite_none_left_eq_some, Prod.exists, Option.some.injEq] at elaborated
      obtain ⟨target, found, writable, type, first, second, unified, stored, joined, rfl⟩ :=
        elaborated
      obtain ⟨⟨_, own⟩, ⟨_, other⟩, typed, same⟩ :=
        unified_eq_some (by simp [Side.Obeys]) (side_obeys scope value) unified
      obtain ⟨rfl, integral⟩ := arithmeticNode_eq_some joined
      obtain rfl : target.get = first := Option.some.inj own
      obtain rfl : target.type = type := Option.some.inj typed
      exact .compound found writable (gives _ _ other) same integral

end Inner

/-- Elaboration checks all that the nodes of a phrase promise. -/
theorem elaborate_gives {scope : Scope} {phrase : Phrase} {type : DataType} {node : Node}
    (elaborated : phrase.elaborate scope type = some node) : Gives scope [phrase] [node] := by
  induction phrase generalizing type node with
  | number token => exact .literal rfl elaborated
  | reference name =>
      simp only [elaborate, Option.map_eq_some_iff] at elaborated
      obtain ⟨source, found, rfl⟩ := elaborated
      exact .reference found
  | call name given closing ih =>
      simp only [elaborate, Option.bind_eq_bind, Option.bind_eq_some_iff,
        Option.some.injEq] at elaborated
      obtain ⟨signature, found, nodes, all, rfl⟩ := elaborated
      obtain ⟨gives, same⟩ := elaborateAll_gives (fun phrase member _ _ => ih phrase member) all
      exact .call found gives same
  | group opening inner ih => exact .group (ih elaborated)
  | negate mark inner ih =>
      cases single : inner.single? with
      | some written =>
          simp only [elaborate, single] at elaborated
          exact .literal (by simp [single?, single]) elaborated
      | none =>
          simp only [elaborate, single, Option.bind_eq_bind, Option.bind_eq_some_iff,
            Option.some.injEq] at elaborated
          obtain ⟨_, inner, _, typed, rfl⟩ := elaborated
          exact .negation single (ih inner) typed
  | complement mark inner ih =>
      simp only [elaborate, Option.bind_eq_bind, Option.bind_eq_some_iff, ofType_eq_some,
        Option.some.injEq] at elaborated
      obtain ⟨_, inner, _, ⟨rfl, truth⟩, rfl⟩ := elaborated
      exact .complement (ih inner) truth
  | cast opening target inner ih =>
      simp only [elaborate] at elaborated
      split at elaborated
      -- A literal that suits the target is typed as the target, so no conversion is left.
      · rename_i written single
        have single := (Option.filter_eq_some_iff.mp single).1
        exact .unchanged (.literal single elaborated) (uniform_number elaborated).type
      · rename_i mixed
        simp only [Option.bind_eq_bind, Option.bind_eq_some_iff, Node.converted] at elaborated
        obtain ⟨node, inner, other, typed, converted⟩ := elaborated
        split at converted
        · rename_i same
          cases converted
          exact .unchanged (ih inner) (same ▸ typed)
        · rename_i differs
          cases converted
          exact .conversion mixed (ih inner) typed differs
  | binary operator mark left right first second =>
      exact binary_gives (fun _ _ => first) (fun _ _ => second) elaborated
  | assign name form mark value ih => exact assign_gives (fun _ _ => ih) elaborated

end Phrase

end ScalarC
