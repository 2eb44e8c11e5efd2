import ScalarC.Proofs.Outline.Entries

/-!
The lines of an outline say which nodes they belong to. Lines of the children
come first, as they are deeper than their node, and the first line that is not
belongs to the next node; so the forest is rebuilt from the indentation.
-/

namespace ScalarC.Node

theorem outlineEntry_head (node : Node) :
    ∃ c rest, node.outlineEntry = c :: rest ∧ c ≠ ' ' := by
  have present : node.tag.name.toList ≠ [] := by cases node.tag <;> decide
  obtain ⟨c, letters, same⟩ := List.exists_cons_of_ne_nil present
  have plain := node.tag.name_plain c (by simp [same])
  simp only [outlineEntry, same, List.cons_append]
  exact ⟨c, _, rfl, by rintro rfl; simp at plain⟩

theorem indented_injective {entry other : Nat × Node} (same : indented entry = indented other) :
    entry.1 = other.1 ∧ entry.2.outlineEntry = other.2.outlineEntry := by
  have spaces (entry : Nat × Node) :
      (indented entry).takeWhile (· = ' ') = List.replicate (2 * entry.1) ' ' ∧
        (indented entry).dropWhile (· = ' ') = entry.2.outlineEntry := by
    obtain ⟨c, rest, head, noSpace⟩ := entry.2.outlineEntry_head
    have all : ∀ c ∈ List.replicate (2 * entry.1) ' ', decide (c = ' ') = true := by simp
    have stops : ∀ c ∈ entry.2.outlineEntry.head?, decide (c = ' ') = false := by
      simp [head, noSpace]
    exact ⟨Scanner.takeWhile_run all stops, Scanner.dropWhile_run all stops⟩
  have depths := (spaces entry).1
  have entries := (spaces entry).2
  rw [same, (spaces other).1] at depths
  rw [same, (spaces other).2] at entries
  have length := congrArg List.length depths
  simp only [List.length_replicate] at length
  exact ⟨by omega, entries.symm⟩

/-- Entries that do not begin at a depth or below it. -/
def Above (depth : Nat) (entries : List (Nat × Node)) : Prop :=
  ∀ entry ∈ entries.head?, entry.1 < depth

theorem Above.nodes {depth : Nat} {rest : List (Nat × Node)} (above : Above depth rest)
    (nodes : List Node) : Above (depth + 1) (preorderAll depth nodes ++ rest) := by
  cases nodes with
  | nil => exact fun entry head => Nat.lt_succ_of_lt (above entry head)
  | cons node nodes =>
      rcases node with ⟨tag, value, type, children⟩
      rintro _ ⟨⟩
      exact Nat.lt_succ_self depth

theorem Above.lines_ne {depth : Nat} {rest also : List (Nat × Node)} (above : Above depth rest)
    (node : Node) (nodes : List Node) :
    rest.map indented ≠ (preorderAll depth (node :: nodes) ++ also).map indented := by
  rcases node with ⟨tag, value, type, children⟩
  cases rest with
  | nil => simp [preorderAll, preorder]
  | cons entry rest =>
      intro same
      have line := (List.cons.inj same).1
      have depths := (indented_injective line).1
      exact absurd (above entry rfl) (by rw [depths]; exact Nat.lt_irrefl depth)

/-- A forest is rebuilt from its lines, and they end where the lines above its depth begin. -/
theorem nodes_of_lines : ∀ (nodes others : List Node) (depth : Nat)
    (rest also : List (Nat × Node)), (∀ node ∈ nodes, node.All Legible) →
      (∀ node ∈ others, node.All Legible) → Above depth rest → Above depth also →
      (preorderAll depth nodes ++ rest).map indented =
        (preorderAll depth others ++ also).map indented →
      nodes = others ∧ rest.map indented = also.map indented
  | [], [], _, _, _, _, _, _, _, same => ⟨rfl, same⟩
  | [], other :: others, depth, rest, also, _, _, above, _, same =>
      absurd same (above.lines_ne other others)
  | node :: nodes, [], depth, rest, also, _, _, _, above, same =>
      absurd same.symm (above.lines_ne node nodes)
  | ⟨tag, value, type, children⟩ :: nodes,
      ⟨otherTag, otherValue, otherType, otherChildren⟩ :: others,
      depth, rest, also, legible, alsoLegible, above, alsoAbove, same => by
      obtain ⟨first, behind⟩ := List.forall_mem_cons.mp legible
      obtain ⟨alsoFirst, alsoBehind⟩ := List.forall_mem_cons.mp alsoLegible
      obtain ⟨root, below⟩ := all_mk.mp first
      obtain ⟨alsoRoot, alsoBelow⟩ := all_mk.mp alsoFirst
      simp only [preorderAll, preorder, List.append_assoc, List.cons_append,
        List.map_cons, List.cons.injEq] at same
      obtain ⟨line, lines⟩ := same
      obtain ⟨rfl, rfl, rfl⟩ : tag = otherTag ∧ value = otherValue ∧ type = otherType :=
        outlineEntry_injective root alsoRoot (indented_injective line).2
      obtain ⟨rfl, further⟩ := nodes_of_lines children otherChildren (depth + 1) _ _ below alsoBelow
        (above.nodes nodes) (alsoAbove.nodes others) lines
      obtain ⟨rfl, outside⟩ := nodes_of_lines nodes others depth rest also behind alsoBehind above
        alsoAbove further
      exact ⟨rfl, outside⟩

/-- Trees whose nodes say what they are have different outlines if they differ. -/
theorem outline_injective {node other : Node} (legible : node.All Legible)
    (also : other.All Legible) (same : node.outline = other.outline) : node = other := by
  have names {tree : Node} (legible : tree.All Legible) :
      tree.All fun part => ∀ name, part.name? = some name → '\n' ∉ name.toList := by
    refine legible.mono fun part legible name named member => ?_
    have isWord : Scanner.IsWord name.toList := legible _ (name?_eq_some.mp named)
    exact NodeValue.word_plain isWord _ member (by simp)
  have lines : (node.preorder 0).map indented = (other.preorder 0).map indented := by
    have cut := splitOn_outline (names legible)
    rw [same, splitOn_outline (names also)] at cut
    exact (List.append_cancel_right cut).symm
  have nothing : Above 0 [] := nofun
  have trees := nodes_of_lines [node] [other] 0 [] [] (List.forall_mem_singleton.mpr legible)
    (List.forall_mem_singleton.mpr also) nothing nothing (by simpa [preorderAll] using lines)
  exact (List.cons.inj trees.1).1

end ScalarC.Node
