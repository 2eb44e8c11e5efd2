import Mathlib.Data.Option.Basic
import ScalarC.Proofs.Phrase.Elaboration

/-!
Typing literals late, once a sibling or a place decides, gives what elaborating
the whole phrase from the outside in gives. `Fits` relates an operand to its
side of an operator in the elaboration: a pending operand has the side's node at
every type, a typed one has the same node at all of them.
-/

namespace ScalarC

theorem Node.toOption_valueType (node : Node) (operator : String) (place : Location) :
    (node.valueType operator place).toOption = node.type := by
  cases type : node.type <;> simp [Node.valueType, type]

theorem DataType.toOption_require (expected : DataType) (found : Option DataType)
    (context : String) (place : Location) :
    (expected.require found context place).toOption =
      if found = some expected then some () else none := by
  unfold DataType.require
  split <;> simp_all

namespace Phrase

inductive Fits : Except ParseError Operand → Side → Prop where
  | pending {pending : Pending} {nodeAt : DataType → Option Node}
      (builds : ∀ type, (pending.build type).toOption = nodeAt type) :
      Fits (.ok (.pending pending)) ⟨true, nodeAt⟩
  | typed {node : Node} {nodeAt : DataType → Option Node} (is : ∀ type, nodeAt type = some node) :
      Fits (.ok (.typed node)) ⟨false, nodeAt⟩
  | failed {error : ParseError} {nodeAt : DataType → Option Node}
      (fails : ∀ type, nodeAt type = none) : Fits (.error error) ⟨false, nodeAt⟩

theorem Fits.freeze {result : Except ParseError Operand} {side : Side} (fits : Fits result side)
    (type : DataType) : (result >>= Operand.freeze type).toOption = side.nodeAt type := by
  cases fits with
  | pending builds => exact builds type
  | typed is => exact (is type).symm
  | failed fails => exact (fails type).symm

/-- A result that is never pending, by the node it has at every type. -/
theorem Fits.of_toOption {result : Except ParseError Operand} {nodeAt : DataType → Option Node}
    (same : ∀ type, result.toOption = (nodeAt type).map Operand.typed) :
    Fits result ⟨false, nodeAt⟩ := by
  cases result with
  | error error => exact .failed fun type => by simpa using (same type).symm
  | ok found =>
      -- Any one type shows that the operand is typed; the other types agree with it.
      obtain ⟨node, _, rfl⟩ := Option.map_eq_some_iff.mp (same .i32).symm
      refine .typed fun type => ?_
      obtain ⟨other, is, equal⟩ := Option.map_eq_some_iff.mp (same type).symm
      rw [is, Operand.typed.inj equal]

theorem Fits.pending_or_same {result : Except ParseError Operand} {side : Side}
    (fits : Fits result side) :
    (∃ pending, result = .ok (.pending pending) ∧ side.isLiteral = true ∧
        ∀ type, (pending.build type).toOption = side.nodeAt type) ∨
      side.isLiteral = false ∧
        ∀ type, result.toOption = (side.nodeAt type).map Operand.typed := by
  cases fits with
  | pending builds => exact .inl ⟨_, rfl, rfl, builds⟩
  | typed is => exact .inr ⟨rfl, fun type => by simp [is]⟩
  | failed fails => exact .inr ⟨rfl, fun type => by simp [fails]⟩

theorem Fits.settle {result : Except ParseError Operand} {side : Side} (fits : Fits result side)
    (expected : DataType) (context : String) (place : Location) :
    (result >>= Operand.settle expected context place).toOption =
      side.nodeAt expected >>= Node.ofType? expected := by
  rw [← fits.freeze expected]
  cases result with
  | error error => rfl
  | ok found =>
      simp only [ok_bind, Operand.settle, toOption_bind]
      cases (found.freeze expected).toOption with
      | none => rfl
      | some node =>
          by_cases same : node.type = some expected <;>
            simp [DataType.toOption_require, Node.ofType?, same]

theorem toOption_node (operator : Arithmetic) (type : DataType) (left right : Node)
    (place : Location) :
    (operator.node type left right place).toOption =
      arithmeticNode operator (type, left, right) := by
  cases type <;> cases operator <;> rfl

section Binary

variable {left right : Except ParseError Operand} {first second : Side}

theorem toOption_unify_typed (one other : Node) (operator : String) (place : Location) :
    (Operand.unify operator place (.typed one) (.typed other)).toOption =
      one.type >>= fun type =>
        if other.type = some type then some (type, one, other) else none := by
  cases oneType : one.type with
  | none => simp [Operand.unify, Node.toOption_valueType, oneType]
  | some left =>
      cases otherType : other.type with
      | none => simp [Operand.unify, Node.toOption_valueType, oneType, otherType]
      | some right =>
          by_cases same : left = right <;>
            simp [Operand.unify, Node.toOption_valueType, oneType, otherType, same, eq_comm]

theorem unify_fits (fitsLeft : Fits left first) (fitsRight : Fits right second)
    (operator : String) (place : Location) :
    (left >>= fun one => right >>= fun other => Operand.unify operator place one other).toOption =
      Side.unified .i32 first second := by
  cases fitsLeft with
  | pending builds =>
      cases fitsRight with
      | pending others =>
          simp [Operand.unify, Side.unified, builds, others, DataType.literalDefault]
      | typed is => simp [Operand.unify, Side.unified, builds, is, Node.toOption_valueType]
      | failed fails => simp [Side.unified, fails]
  | typed is =>
      cases fitsRight with
      | pending builds => simp [Operand.unify, Side.unified, builds, is, Node.toOption_valueType]
      | typed others => simp [toOption_unify_typed, Side.unified, is, others]
      | failed fails => simp [Side.unified, is, fails]
  | failed fails => cases fitsRight <;> simp [Side.unified, fails]

/-- Two sides that are not both of literals have one type, whatever is given. -/
theorem unified_given (fitsLeft : Fits left first) (fitsRight : Fits right second)
    (mixed : (first.isLiteral && second.isLiteral) = false) (given : DataType) :
    Side.unified given first second = Side.unified .i32 first second := by
  cases fitsLeft <;> cases fitsRight <;> simp_all [Side.unified]

theorem arithmetic_fits (fitsLeft : Fits left first) (fitsRight : Fits right second)
    (operator : Arithmetic) (place : Location) :
    Fits (left >>= fun one => right >>= fun other => Operand.arithmetic operator place one other)
      ⟨first.isLiteral && second.isLiteral,
        fun type => Side.unified type first second >>= arithmeticNode operator⟩ := by
  -- Unless both sides are pending, the operator joins them as soon as they have one type.
  have joins (mixed : (first.isLiteral && second.isLiteral) = false) :
      Fits (left >>= fun one => right >>= fun other =>
          Operand.unify operator.symbol place one other >>= fun sides =>
            operator.node sides.1 sides.2.1 sides.2.2 place >>= fun node => .ok (.typed node))
        ⟨first.isLiteral && second.isLiteral,
          fun type => Side.unified type first second >>= arithmeticNode operator⟩ := by
    rw [mixed]
    refine .of_toOption fun type => ?_
    rw [unified_given fitsLeft fitsRight mixed,
      ← unify_fits fitsLeft fitsRight operator.symbol place]
    simp [toOption_node, Option.map_eq_bind, Option.bind_assoc]
  cases fitsLeft with
  | pending builds =>
      cases fitsRight with
      | pending others =>
          refine .pending fun type => ?_
          simp only [Pending.build, toOption_bind, toOption_node, builds, others, Side.unified,
            Option.bind_eq_bind, Option.bind_assoc, Option.bind_some]
      | typed is => exact joins rfl
      | failed fails => exact joins rfl
  | typed is => cases fitsRight <;> exact joins rfl
  | failed fails => cases fitsRight <;> exact joins rfl

theorem comparison_fits (fitsLeft : Fits left first) (fitsRight : Fits right second)
    (operator : Comparison) (place : Location) :
    Fits (left >>= fun one => right >>= fun other => Operand.comparison operator place one other)
      ⟨false, fun _ => Side.unified .i32 first second >>= fun sides =>
        some ⟨operator.tag, none, some .i32, [sides.2.1, sides.2.2]⟩⟩ := by
  refine .of_toOption fun _ => ?_
  rw [← unify_fits fitsLeft fitsRight operator.symbol place]
  simp [Operand.comparison, Option.map_eq_bind, Option.bind_assoc]

theorem truthValue_fits (fits : Fits left first) (operator : String) (place : Location) :
    (left >>= Operand.truthValue operator place).toOption =
      first.nodeAt .i32 >>= Node.ofType? .i32 := by
  exact fits.settle .i32 ("operand of '" ++ operator ++ "'") place

theorem connective_fits (fitsLeft : Fits left first) (fitsRight : Fits right second)
    (operator : Connective) (place : Location) :
    Fits (left >>= fun one => right >>= fun other => Operand.connective operator place one other)
      ⟨false, fun _ => do
        let one ← first.nodeAt .i32
        let left ← one.ofType? .i32
        let other ← second.nodeAt .i32
        let right ← other.ofType? .i32
        some ⟨operator.tag, none, some .i32, [left, right]⟩⟩ := by
  have one := truthValue_fits fitsLeft operator.symbol place
  have other := truthValue_fits fitsRight operator.symbol place
  refine .of_toOption fun _ => ?_
  simp only [← bind_assoc (first.nodeAt .i32), ← bind_assoc (second.nodeAt .i32)]
  rw [← one, ← other]
  cases left with
  | error error => rfl
  | ok one =>
      cases right with
      | error error => simp
      | ok other => simp [Operand.connective, Option.map_bind]

theorem complement_fits (fits : Fits left first) (place : Location) :
    Fits (left >>= Operand.complement place)
      ⟨false, fun _ => do
        let node ← first.nodeAt .i32
        let truth ← node.ofType? .i32
        some ⟨.not, none, some .i32, [truth]⟩⟩ := by
  have truth := truthValue_fits fits "!" place
  refine .of_toOption fun _ => ?_
  simp only [← bind_assoc (first.nodeAt .i32)]
  rw [← truth]
  simp [Operand.complement, Option.map_eq_bind, Option.bind_assoc]

end Binary

theorem toOption_convert (target : DataType) (place : Location) (node : Node) :
    (Operand.convert target place node).toOption = (node.converted target).map Operand.typed := by
  cases type : node.type with
  | none => simp [Operand.convert, Node.converted, Node.valueType, type]
  | some found =>
      by_cases same : found = target <;>
        simp [Operand.convert, Node.converted, Node.valueType, type, same]

end Phrase

end ScalarC
