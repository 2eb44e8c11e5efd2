import ScalarC.Proofs.Twins.Basic

/-!
Operands of twin runs. Operands are twins if they are the same tree up to names,
or pending expressions whose literals and operators stand at tokens that stand
for each other. Freezing, joining and converting them agrees.
-/

namespace ScalarC

namespace Twins

def Values (twins : Twins) (value other : NodeValue) : Prop := other = value.renamed twins.rename

structure Literals (twins : Twins) (first second : Literal) : Prop where
  text : second.text = first.text
  negative : second.negative = first.negative
  places : twins.Places first.location second.location

inductive Pendings (twins : Twins) : Pending → Pending → Prop where
  | literal {first second : Literal} :
      twins.Literals first second → Pendings twins (.literal first) (.literal second)
  | neg {inner other : Pending} :
      Pendings twins inner other → Pendings twins (.neg inner) (.neg other)
  | binary {left right first second : Pending} {place other : Location} (operator : Arithmetic) :
      Pendings twins left first → Pendings twins right second → twins.Places place other →
      Pendings twins (.binary operator left right place) (.binary operator first second other)

inductive Operands (twins : Twins) : Operand → Operand → Prop where
  | typed (node : Node) : Operands twins (.typed node) (.typed (node.renamed twins.rename))
  | pending {expression other : Pending} :
      twins.Pendings expression other → Operands twins (.pending expression) (.pending other)

variable {twins : Twins}

/-! Nodes. -/

theorem nodes_mk (tag : Tag) (value : Option NodeValue) (type : Option DataType)
    (children : List Node) :
    twins.Nodes ⟨tag, value, type, children⟩
      ⟨tag, value.map (NodeValue.renamed twins.rename), type,
        children.map (Node.renamed twins.rename)⟩ :=
  (Node.renamed_mk ..).symm

theorem Operands.of_nodes {node other : Node} (same : twins.Nodes node other) :
    twins.Operands (.typed node) (.typed other) := by
  subst same
  exact .typed node

section Nodes

variable {place other : Location} (places : twins.Places place other)
include places

theorem require_agree {context also : String} (contexts : ContextRenames twins.rename context also)
    (expected : DataType) (found : Option DataType) :
    twins.Agree Eq (expected.require found context place) (expected.require found also other) :=
  .ite .rfl (fun _ => .ok rfl) fun _ =>
    .error (.typeMismatch (.unexpectedType expected found contexts) places)

theorem valueType_agree (node : Node) (operator : String) :
    twins.Agree Eq (node.valueType operator place)
      ((node.renamed twins.rename).valueType operator other) := by
  unfold Node.valueType
  rw [Node.renamed_type]
  cases node.type with
  | some type => exact .ok rfl
  | none => exact .error (.typeMismatch (.renamed (.voidOperand operator)) places)

theorem arithmeticNode_agree (operator : Arithmetic) (type : DataType) (left right : Node) :
    twins.Agree twins.Nodes (operator.node type left right place)
      (operator.node type (left.renamed twins.rename) (right.renamed twins.rename) other) := by
  apply Agree.ite .rfl <;> intro _
  · exact .error (.typeMismatch (.renamed (.fractionalRemainder type)) places)
  · exact .ok (nodes_mk operator.tag none (some type) [left, right])

end Nodes

/-! Literals. -/

namespace Literals

variable {first second : Literal} (same : twins.Literals first second)
include same

theorem finite (type : DataType) (value : Binary64) :
    twins.Agree twins.Values
      (first.finite type value) (second.finite type value) := by
  unfold Literal.finite
  rw [same.text]
  refine .ite .rfl (fun _ => .ok rfl) fun _ => ?_
  exact .error (.typeMismatch (.renamed (.literalOutOfRange first.text type)) same.places)

theorem fractionalValue (type : DataType) :
    twins.Agree twins.Values
      (first.fractionalValue type) (second.fractionalValue type) := by
  unfold Literal.fractionalValue
  rw [same.text, same.negative]
  apply Agree.ite .rfl <;> intro _
  · exact .error (.typeMismatch (.renamed (.literalNotOfType first.text type)) same.places)
  cases Decimal.read? first.text.toList with
  | none => exact .error (.malformed (.malformedNumber first.text) same.places)
  | some read => exact same.finite type _

theorem integerValue (type : DataType) :
    twins.Agree twins.Values
      (first.integerValue type) (second.integerValue type) := by
  have outOfRange : twins.Agree twins.Values
      (.error (.typeMismatch (.literalOutOfRange first.signedText type) first.location))
      (.error (.typeMismatch (.literalOutOfRange first.signedText type) second.location)) :=
    .error (.typeMismatch (.renamed (.literalOutOfRange first.signedText type)) same.places)
  have signed : second.signedText = first.signedText := by
    rw [Literal.signedText, same.text, same.negative]
    rfl
  unfold Literal.integerValue
  dsimp only
  rw [signed, same.text, same.negative]
  cases Literal.magnitude? first.text with
  | none => exact outOfRange
  | some magnitude =>
      cases Literal.integerBounds? type with
      | none => exact same.finite type _
      | some bounds => exact .ite .rfl (fun _ => .ok rfl) fun _ => outOfRange

theorem node (type : DataType) :
    twins.Agree twins.Nodes (first.node type) (second.node type) := by
  have value : twins.Agree twins.Values
      (first.value type) (second.value type) := by
    unfold Literal.value
    rw [same.text]
    exact .ite .rfl (fun _ => same.fractionalValue type) fun _ => same.integerValue type
  apply value.bind
  rintro found _ rfl
  exact .ok (nodes_mk .number (some found) (some type) [])

end Literals

/-! Pending expressions. -/

namespace Pendings

variable {expression other : Pending} (twin : twins.Pendings expression other)
include twin

theorem hasFraction : other.hasFraction = expression.hasFraction := by
  induction twin with
  | literal same => simp only [Pending.hasFraction, same.text]
  | neg _ ih => exact ih
  | binary _ _ _ _ left right => rw [Pending.hasFraction, left, right, Pending.hasFraction]

theorem naturalType : other.naturalType = expression.naturalType := by
  rw [Pending.naturalType, twin.hasFraction, Pending.naturalType]

theorem build (type : DataType) :
    twins.Agree twins.Nodes (expression.build type) (other.build type) := by
  induction twin with
  | literal same => exact same.node type
  | neg _ ih =>
      apply ih.bind
      rintro node _ rfl
      exact .ok (nodes_mk .neg none (some type) [node])
  | binary operator _ _ places left right =>
      apply left.bind
      intro first _ same
      apply right.bind
      intro second _ also
      subst same also
      exact arithmeticNode_agree places operator type first second

end Pendings

/-! Operands. -/

theorem freeze_agree {found given : Operand} (both : twins.Operands found given)
    (type : DataType) : twins.Agree twins.Nodes (found.freeze type) (given.freeze type) := by
  cases both with
  | typed node => exact .ok rfl
  | pending twin => exact twin.build type

section Pairs

variable {left right first second : Operand} {place other : Location}
  (ones : twins.Operands left first) (twos : twins.Operands right second)
  (places : twins.Places place other)
include places

theorem truthValue_agree {found given : Operand} (both : twins.Operands found given)
    (operator : String) :
    twins.Agree twins.Nodes (found.truthValue operator place)
      (given.truthValue operator other) := by
  apply (freeze_agree both .i32).bind
  rintro node _ rfl
  rw [Node.renamed_type]
  exact (require_agree places (.same _) .i32 node.type).bind fun _ _ _ => .ok rfl

include ones twos

theorem unify_agree (operator : String) :
    twins.Agree (fun found given => given = (found.1, found.2.1.renamed twins.rename,
        found.2.2.renamed twins.rename))
      (Operand.unify operator place left right) (Operand.unify operator other first second) := by
  cases ones with
  | typed one =>
      cases twos with
      | typed two =>
          apply (valueType_agree places one operator).bind
          intro type _ same
          apply (valueType_agree places two operator).bind
          intro further _ also
          subst same also
          refine .ite .rfl (fun _ => .ok rfl) fun _ => ?_
          exact .error (.typeMismatch (.renamed (.operandsDiffer operator type further)) places)
      | pending twin =>
          apply (valueType_agree places one operator).bind
          rintro type _ rfl
          refine (twin.build type).bind fun node _ built => .ok ?_
          rw [built]
  | pending twin =>
      cases twos with
      | typed two =>
          apply (valueType_agree places two operator).bind
          rintro type _ rfl
          refine (twin.build type).bind fun node _ built => .ok ?_
          rw [built]
      | pending also =>
          apply (twin.build .literalDefault).bind
          intro one _ built
          refine (also.build .literalDefault).bind fun two _ further => .ok ?_
          rw [built, further]

theorem arithmetic_agree (operator : Arithmetic) :
    twins.Agree twins.Operands (Operand.arithmetic operator place left right)
      (Operand.arithmetic operator other first second) := by
  have joined : twins.Agree twins.Operands
      (Operand.unify operator.symbol place left right >>= fun found =>
        operator.node found.1 found.2.1 found.2.2 place >>= fun node => .ok (.typed node))
      (Operand.unify operator.symbol other first second >>= fun found =>
        operator.node found.1 found.2.1 found.2.2 other >>= fun node => .ok (.typed node)) := by
    apply (unify_agree ones twos places operator.symbol).bind
    rintro found _ rfl
    refine (arithmeticNode_agree places operator found.1 found.2.1 found.2.2).bind ?_
    intro node _ same
    subst same
    exact .ok (.typed node)
  cases ones with
  | typed one => cases twos <;> exact joined
  | pending twin =>
      cases twos with
      | typed two => exact joined
      | pending also => exact .ok (.pending (.binary operator twin also places))

theorem comparison_agree (operator : Comparison) :
    twins.Agree twins.Operands (Operand.comparison operator place left right)
      (Operand.comparison operator other first second) := by
  apply (unify_agree ones twos places operator.symbol).bind
  rintro found _ rfl
  exact .ok (.of_nodes (nodes_mk operator.tag none (some .i32) [found.2.1, found.2.2]))

theorem connective_agree (operator : Connective) :
    twins.Agree twins.Operands (Operand.connective operator place left right)
      (Operand.connective operator other first second) := by
  apply (truthValue_agree places ones operator.symbol).bind
  intro one _ same
  apply (truthValue_agree places twos operator.symbol).bind
  intro two _ also
  subst same also
  exact .ok (.of_nodes (nodes_mk operator.tag none (some .i32) [one, two]))

theorem binary_agree (operator : BinaryOperator) :
    twins.Agree twins.Operands (left.binary operator place right)
      (first.binary operator other second) := by
  cases operator with
  | connective operator => exact connective_agree ones twos places operator
  | comparison operator => exact comparison_agree ones twos places operator
  | arithmetic operator => exact arithmetic_agree ones twos places operator

end Pairs

section Single

variable {found given : Operand} {place other : Location}
  (places : twins.Places place other)
include places

theorem convert_agree (target : DataType) (node : Node) :
    twins.Agree twins.Operands (Operand.convert target place node)
      (Operand.convert target other (node.renamed twins.rename)) := by
  apply (valueType_agree places node "cast").bind
  rintro type _ rfl
  refine .ite .rfl (fun _ => .ok (.typed node)) fun _ => ?_
  exact .ok (.of_nodes (nodes_mk .cast none (some target) [node]))

variable (both : twins.Operands found given)
include both

theorem negate_agree : twins.Agree twins.Operands (found.negate place) (given.negate other) := by
  cases both with
  | typed node =>
      apply (valueType_agree places node "-").bind
      rintro type _ rfl
      exact .ok (.of_nodes (nodes_mk .neg none (some type) [node]))
  | pending twin =>
      cases twin with
      | literal same =>
          exact .ok (.pending (.literal ⟨same.text, congrArg not same.negative, same.places⟩))
      | neg twin => exact .ok (.pending (.neg (.neg twin)))
      | binary operator left right behind =>
          exact .ok (.pending (.neg (.binary operator left right behind)))

theorem complement_agree :
    twins.Agree twins.Operands (found.complement place) (given.complement other) := by
  apply (truthValue_agree places both "!").bind
  rintro node _ rfl
  exact .ok (.of_nodes (nodes_mk .not none (some .i32) [node]))

theorem cast_agree (target : DataType) :
    twins.Agree twins.Operands (found.cast target place) (given.cast target other) := by
  have built {expression : Pending} {also : Pending} (twin : twins.Pendings expression also) :
      twins.Agree twins.Operands
        (expression.build expression.naturalType >>= Operand.convert target place)
        (also.build also.naturalType >>= Operand.convert target other) := by
    rw [twin.naturalType]
    apply (twin.build expression.naturalType).bind
    rintro node _ rfl
    exact convert_agree places target node
  cases both with
  | typed node => exact convert_agree places target node
  | pending twin =>
      cases twin with
      | literal same =>
          have suits := built (.literal same)
          unfold Operand.cast
          dsimp only
          rw [same.text]
          refine .ite .rfl (fun _ => ?_) fun _ => suits
          apply (same.node target).bind
          intro node _ is
          subst is
          exact .ok (.typed node)
      | neg twin => exact built (.neg twin)
      | binary operator left right behind => exact built (.binary operator left right behind)

end Single

end Twins

end ScalarC
