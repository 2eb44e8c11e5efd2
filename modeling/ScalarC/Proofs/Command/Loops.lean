import ScalarC.Proofs.Outline.Preorder
import ScalarC.Proofs.Typing.Soundness

/-!
Jumps in a tree. A jump is elaborated under a loop only, and the body of a loop
is a block below it. So on the way from a function down to a jump there is a loop
and its block, and the way starts at the function among the items of the module.
-/

namespace ScalarC

namespace Node

def IsJump (node : Node) : Prop :=
  node.tag = .breakLoop ∨ node.tag = .continueLoop

def IsLoop (node : Node) : Prop :=
  node.tag = .whileLoop ∨ node.tag = .doLoop

structure Shelters (node : Node) (above : List Nat) (index : Nat) : Prop where
  loop : ∃ loop, node.at? above = some loop ∧ loop.IsLoop
  block : ∃ block, node.at? (above ++ [index]) = some block ∧ block.tag = .block

/-- Each jump of a tree stands in a loop of it, where it is in none already. -/
def JumpsInside (outside : Prop) (node : Node) : Prop :=
  ∀ path jump, node.at? path = some jump → jump.IsJump → outside →
    ∃ above index below, path = above ++ index :: below ∧ node.Shelters above index

theorem Shelters.below {node child : Node} {place index : Nat} {above : List Nat}
    (shelters : child.Shelters above index) (is : node.children[place]? = some child) :
    node.Shelters (place :: above) index := by
  constructor
  · simpa [at?, is] using shelters.loop
  · simpa [at?, is] using shelters.block

/-- The jumps of a node that is none are below it. A block of a loop shelters those in it. -/
theorem JumpsInside.of_loop {outside : Prop} {node : Node} (other : ¬ node.IsJump)
    (each : ∀ child ∈ node.children,
      node.IsLoop ∧ child.tag = .block ∨ child.JumpsInside outside) : node.JumpsInside outside := by
  intro path jump reached isJump out
  cases path with
  | nil =>
      cases reached
      exact absurd isJump other
  | cons place path =>
      obtain ⟨child, is, reached⟩ := Option.bind_eq_some_iff.mp reached
      rcases each child (List.mem_of_getElem? is) with ⟨isLoop, block⟩ | inside
      · exact ⟨[], place, path, rfl, ⟨node, rfl, isLoop⟩, child, by simp [at?, is], block⟩
      · obtain ⟨above, index, below, rfl, shelters⟩ := inside path jump reached isJump out
        exact ⟨place :: above, index, below, rfl, shelters.below is⟩

theorem JumpsInside.of_children {outside : Prop} {node : Node} (other : ¬ node.IsJump)
    (each : ∀ child ∈ node.children, child.JumpsInside outside) : node.JumpsInside outside :=
  .of_loop other fun child member => .inr (each child member)

theorem IsValue.jumpsInside {calls : String → Signature → Prop} {node : Node}
    (value : node.IsValue calls) (outside : Prop) : node.JumpsInside outside := by
  induction value with
  | number => exact .of_children (by simp [IsJump]) (by simp)
  | reference tag => exact .of_children (by rcases tag with rfl | rfl <;> simp [IsJump]) (by simp)
  | assignment tag _ _ ih =>
      exact .of_children (by rcases tag with rfl | rfl <;> simp [IsJump]) (by simpa using ih)
  | @arithmetic operator _ _ _ _ _ _ _ _ left right =>
      exact .of_children (by cases operator <;> simp [IsJump, Arithmetic.tag])
        (by simp [left, right])
  | @comparison operator _ _ _ _ _ _ _ left right =>
      exact .of_children (by cases operator <;> simp [IsJump, Comparison.tag])
        (by simp [left, right])
  | @connective operator _ _ _ _ _ _ left right =>
      exact .of_children (by cases operator <;> simp [IsJump, Connective.tag])
        (by simp [left, right])
  | complement _ _ ih | negation _ _ ih | cast _ _ _ ih =>
      exact .of_children (by simp [IsJump]) (by simpa using ih)
  | call _ _ _ ih => exact .of_children (by simp [IsJump]) ih

end Node

theorem Phrase.elaborate_jumpsInside {scope : Scope} {phrase : Phrase} {type : DataType}
    {node : Node} (elaborated : phrase.elaborate scope type = some node) (outside : Prop) :
    node.JumpsInside outside :=
  have within : scope.Within fun _ _ => True := fun _ _ _ => trivial
  (elaborate_isValue within elaborated).jumpsInside outside

namespace Command

theorem body_jumpsInside {outside : Prop} {node : Node} (inside : node.JumpsInside outside)
    (command : Command) : (command.body node).JumpsInside outside := by
  cases command with
  | block inner => exact inside
  | _ => exact .of_children (by simp [body, Node.IsJump]) (by simpa [body] using inside)

theorem asStatement_jumpsInside {outside : Prop} {node : Node}
    (inside : node.JumpsInside outside) : node.asStatement.JumpsInside outside := by
  unfold Node.asStatement
  split
  · exact inside
  · exact .of_children (by simp [Node.IsJump]) (by simpa using inside)

theorem elaborates_jumpsInside {function : Enclosing} {depth : Nat} {scope after : Scope}
    {commands : List Command} {nodes : List Node}
    (elaborates : Elaborates function depth scope commands nodes after) :
    ∀ node ∈ nodes, node.JumpsInside (depth = 0) := by
  induction elaborates with
  | nil => simp
  | cons _ _ first others =>
      exact List.forall_mem_cons.mpr ⟨first _ (List.mem_singleton_self _), others⟩
  | declared | returned =>
      exact List.forall_mem_singleton.mpr (.of_children (by simp [Node.IsJump]) (by simp))
  | initialized yields | returnedValue _ yields =>
      have value := Phrase.elaborate_jumpsInside yields.1
      exact List.forall_mem_singleton.mpr
        (.of_children (by simp [Node.IsJump]) (by simp [value]))
  | branch yields _ ih =>
      have test := Phrase.elaborate_jumpsInside yields.1
      have chosen := body_jumpsInside (List.forall_mem_singleton.mp ih)
      exact List.forall_mem_singleton.mpr
        (.of_children (by simp [Node.IsJump]) (by simp [test, chosen]))
  | branchElse yields _ _ first second =>
      have test := Phrase.elaborate_jumpsInside yields.1
      have chosen := body_jumpsInside (List.forall_mem_singleton.mp first)
      have alternative := body_jumpsInside (List.forall_mem_singleton.mp second)
      exact List.forall_mem_singleton.mpr
        (.of_children (by simp [Node.IsJump]) (by simp [test, chosen, alternative]))
  | whileLoop yields repeated =>
      have test := Phrase.elaborate_jumpsInside yields.1
      exact List.forall_mem_singleton.mpr
        (.of_loop (by simp [Node.IsJump]) (by simp [Node.IsLoop, test, body_tag repeated]))
  | doLoop repeated yields =>
      have test := Phrase.elaborate_jumpsInside yields.1
      exact List.forall_mem_singleton.mpr
        (.of_loop (by simp [Node.IsJump]) (by simp [Node.IsLoop, test, body_tag repeated]))
  | breakLoop inLoop | continueLoop inLoop =>
      exact List.forall_mem_singleton.mpr fun _ _ _ _ outside => absurd outside inLoop
  | block _ ih => exact List.forall_mem_singleton.mpr (.of_children (by simp [Node.IsJump]) ih)
  | expression elaborated =>
      have value := Phrase.elaborate_jumpsInside elaborated
      exact List.forall_mem_singleton.mpr (asStatement_jumpsInside (value _))

end Command

theorem Item.parameters_jumpsInside (outside : Prop) (parameters : List (Token × DataType)) :
    Node.JumpsInside outside ⟨.parameters, none, none, parameters.map parameterNode⟩ := by
  refine .of_children (by simp [Node.IsJump]) fun child member => ?_
  obtain ⟨parameter, _, rfl⟩ := List.mem_map.mp member
  exact .of_children (by simp [Node.IsJump, parameterNode]) (by simp [parameterNode])

theorem Item.elaborates_jumpsInside {scope after : Scope} {item : Item} {node : Node}
    (elaborates : item.Elaborates scope node after) {path : List Nat} {jump : Node}
    (reached : node.at? path = some jump) (isJump : jump.IsJump) :
    node.tag = .function ∧
      ∃ above index below, path = above ++ index :: below ∧ node.Shelters above index := by
  cases elaborates with
  | unset =>
      rcases path with _ | ⟨place, path⟩
      · cases reached
        simp [Node.IsJump] at isJump
      · simp [Node.at?] at reached
  | set _ is =>
      obtain ⟨value, _, rfl⟩ := Literal.node?_eq_some.mp is
      rcases path with _ | ⟨_ | place, _ | ⟨inner, path⟩⟩ <;> simp [Node.at?] at reached
      · simp [← reached, Node.IsJump] at isJump
      · simp [← reached, Node.IsJump] at isJump
  | @function _ _ _ _ _ parameters _ _ _ _ body =>
      have header := parameters_jumpsInside (0 = 0) parameters
      have statements : Node.JumpsInside (0 = 0) ⟨.body, none, none, _⟩ :=
        .of_children (by simp [Node.IsJump]) (Command.elaborates_jumpsInside body)
      refine ⟨rfl, Node.JumpsInside.of_children ?_ ?_ path jump reached isJump (Eq.refl 0)⟩
      · simp [Node.IsJump]
      · exact List.forall_mem_cons.mpr ⟨header, List.forall_mem_singleton.mpr statements⟩

/-- Each jump of a module stands in a function of it, in the block of a loop there. -/
def Node.JumpsInLoops (module : Node) : Prop :=
  ∀ path jump, module.at? path = some jump → jump.IsJump →
    ∃ place function above index below, path = place :: (above ++ index :: below) ∧
      module.children[place]? = some function ∧ function.tag = .function ∧
      function.Shelters above index

theorem parsed_jumpsInLoops {tokens : List Token} {module : Node}
    (parsed : parse tokens = .ok module) : module.JumpsInLoops := by
  obtain ⟨_, _, items, nodes, _, _, _, _, elaborates, rfl⟩ := parse_reads parsed
  intro path jump reached isJump
  cases path with
  | nil =>
      cases reached
      simp [Node.IsJump] at isJump
  | cons place path =>
      obtain ⟨node, is, reached⟩ := Option.bind_eq_some_iff.mp reached
      obtain ⟨_, _, _, itself⟩ := elaborates.item_of_mem (List.mem_of_getElem? is)
      obtain ⟨isFunction, above, index, below, rfl, shelters⟩ :=
        Item.elaborates_jumpsInside itself reached isJump
      exact ⟨place, node, above, index, below, rfl, is, isFunction, shelters⟩

end ScalarC
