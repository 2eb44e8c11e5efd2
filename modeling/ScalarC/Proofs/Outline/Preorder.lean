import Mathlib.Data.List.Forall2
import ScalarC.Node.Outline
import ScalarC.Proofs.Contents

/-!
Preorder by paths. A path leads from the root to a node by the places among the
children. In lexicographic order the paths of a tree are those of its nodes in
preorder, and the length of a path is the depth of its node.
-/

namespace ScalarC.Node

def at? (node : Node) : List Nat → Option Node
  | [] => some node
  | place :: path => node.children[place]?.bind fun child => child.at? path

mutual

def paths : Node → List (List Nat)
  | ⟨_, _, _, children⟩ => [] :: pathsFrom 0 children

/-- The paths into children, of which the first has this place. -/
def pathsFrom (place : Nat) : List Node → List (List Nat)
  | [] => []
  | node :: rest => (paths node).map (place :: ·) ++ pathsFrom (place + 1) rest

end

theorem mem_pathsFrom {nodes : List Node} {place : Nat} {path : List Nat} :
    path ∈ pathsFrom place nodes ↔ ∃ index inner child, path = (place + index) :: inner ∧
      nodes[index]? = some child ∧ inner ∈ child.paths := by
  induction nodes generalizing place with
  | nil => simp [pathsFrom]
  | cons node nodes ih =>
      simp only [pathsFrom, List.mem_append, List.mem_map, ih]
      constructor
      · rintro (⟨inner, member, rfl⟩ | ⟨index, inner, child, rfl, found, member⟩)
        · exact ⟨0, inner, node, rfl, rfl, member⟩
        · exact ⟨index + 1, inner, child, by rw [Nat.add_right_comm, Nat.add_assoc], found, member⟩
      · rintro ⟨_ | index, inner, child, rfl, found, member⟩
        · cases found
          exact .inl ⟨inner, member, rfl⟩
        · exact .inr ⟨index, inner, child, by rw [Nat.add_right_comm, Nat.add_assoc], found, member⟩

theorem mem_paths {node : Node} {path : List Nat} :
    path ∈ node.paths ↔ (node.at? path).isSome = true := by
  induction node generalizing path with
  | mk tag value type children ih =>
      rw [paths, List.mem_cons, mem_pathsFrom]
      cases path with
      | nil => simp [at?]
      | cons place path =>
          cases found : children[place]? with
          | none => simp [at?, found]
          | some child =>
              have inside : path ∈ child.paths ↔ _ := ih child (List.mem_of_getElem? found)
              simp [at?, found, inside]

theorem pathsFrom_sorted {nodes : List Node}
    (each : ∀ node ∈ nodes, node.paths.Pairwise (· < ·)) (place : Nat) :
    (pathsFrom place nodes).Pairwise (· < ·) := by
  induction nodes generalizing place with
  | nil => exact .nil
  | cons node nodes ih =>
      obtain ⟨first, others⟩ := List.forall_mem_cons.mp each
      rw [pathsFrom, List.pairwise_append, List.pairwise_map]
      refine ⟨first.imp fun less => List.cons_lt_cons_iff.mpr (.inr ⟨rfl, less⟩),
        ih others (place + 1), ?_⟩
      intro path inFirst other inOthers
      obtain ⟨inner, _, rfl⟩ := List.mem_map.mp inFirst
      obtain ⟨index, outer, _, rfl, _⟩ := mem_pathsFrom.mp inOthers
      exact List.cons_lt_cons_iff.mpr (.inl (by omega))

/-- Preorder is the lexicographic order of paths. -/
theorem paths_sorted (node : Node) : node.paths.Pairwise (· < ·) := by
  induction node with
  | mk tag value type children ih =>
      rw [paths, List.pairwise_cons]
      refine ⟨fun path member => ?_, pathsFrom_sorted ih 0⟩
      obtain ⟨index, inner, _, rfl, _⟩ := mem_pathsFrom.mp member
      exact List.nil_lt_cons _ _

/-- A node of a tree at this depth, and the path to it. -/
structure Leads (node : Node) (depth : Nat) (path : List Nat) (entry : Nat × Node) : Prop where
  depth : entry.1 = depth + path.length
  node : node.at? path = some entry.2

theorem paths_lead (node : Node) (depth : Nat) :
    List.Forall₂ (node.Leads depth) node.paths (node.preorder depth) := by
  induction node generalizing depth with
  | mk tag value type children ih =>
      -- The children from a place on, among all of them.
      have below (place : Nat) (nodes : List Node) (inside : children.drop place = nodes) :
          List.Forall₂ (Leads ⟨tag, value, type, children⟩ depth)
            (pathsFrom place nodes) (preorderAll (depth + 1) nodes) := by
        induction nodes generalizing place with
        | nil => exact .nil
        | cons child nodes others =>
            have found : children[place]? = some child := by
              rw [← List.head?_drop, inside, List.head?_cons]
            have first := ih child (List.mem_of_getElem? found) (depth + 1)
            rw [pathsFrom, preorderAll]
            refine List.rel_append (List.forall₂_map_left_iff.mpr (first.imp ?_)) (others _ ?_)
            · rintro path entry ⟨length, reached⟩
              exact ⟨by simp only [length, List.length_cons]; omega, by simp [at?, found, reached]⟩
            · rw [← List.drop_drop, inside, List.drop_one, List.tail_cons]
      rw [paths, preorder]
      exact .cons ⟨rfl, rfl⟩ (below 0 children rfl)

theorem length_pathsFrom {nodes : List Node}
    (each : ∀ node ∈ nodes, node.paths.length = node.count) (place : Nat) :
    (pathsFrom place nodes).length = countAll nodes := by
  induction nodes generalizing place with
  | nil => rfl
  | cons node nodes ih =>
      obtain ⟨first, others⟩ := List.forall_mem_cons.mp each
      simp [pathsFrom, countAll, first, ih others]

theorem length_paths (node : Node) : node.paths.length = node.count := by
  induction node with
  | mk tag value type children ih => simp [paths, count, length_pathsFrom ih]

end ScalarC.Node
