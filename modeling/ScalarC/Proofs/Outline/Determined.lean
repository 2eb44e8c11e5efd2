import ScalarC.Proofs.Outline.Nesting

/-!
The outline of a tree has a line for each node, in preorder. Names of sources are
words, so the outline of a source determines its tree.
-/

namespace ScalarC

namespace Node

/-- The paths to all nodes of a tree, each once and in lexicographic order. -/
structure IsPreorder (node : Node) (paths : List (List Nat)) : Prop where
  sorted : paths.Pairwise (· < ·)
  all : ∀ path, path ∈ paths ↔ (node.at? path).isSome = true

theorem isPreorder_paths (node : Node) : node.IsPreorder node.paths :=
  ⟨node.paths_sorted, fun _ => mem_paths⟩

/-- The line of the node at the end of a path, with two spaces for each step. -/
def HasLine (node : Node) (path : List Nat) (line : List Char) : Prop :=
  ∃ part, node.at? path = some part ∧
    line = List.replicate (2 * path.length) ' ' ++ part.outlineEntry

theorem paths_haveLines (node : Node) :
    List.Forall₂ node.HasLine node.paths ((node.preorder 0).map indented) := by
  refine List.forall₂_map_right_iff.mpr ((node.paths_lead 0).imp ?_)
  intro path entry leads
  refine ⟨entry.2, leads.node, ?_⟩
  rw [indented, leads.depth, Nat.zero_add]

end Node

theorem legible_of_source {source : String} {tokens : List Token} {tree : Node}
    (read : tokenize source = .ok tokens) (parsed : parse tokens = .ok tree) :
    tree.All Node.Legible := by
  have cut := cut_of_tokens (Scanner.ofString source) [] tokens rfl read
  have names := namesSpelled_of_parse parsed cut.identifiers_spelled
  refine (names.and (floatsFinite_of_parse parsed)).mono ?_
  rintro part ⟨spelled, finite⟩ value present
  cases value with
  | name text => exact spelled text (Node.name?_eq_some.mpr present)
  | int => trivial
  | float double => exact finite double present

/-- An outline has as many lines as the tree has nodes, if no name has a line feed in it. They are
those of the nodes in preorder, indented by twice the depth. Sources with one outline have one
tree. -/
theorem outline_determines_tree :
    (∀ node : Node,
      (node.All fun part => ∀ name, part.name? = some name → '\n' ∉ name.toList) →
      ∃ lines paths, node.outline.toList.splitOn '\n' = lines ++ [[]] ∧
        lines.length = node.count ∧ node.IsPreorder paths ∧
        List.Forall₂ node.HasLine paths lines) ∧
    ∀ (first second : String) (tokens others : List Token) (tree other : Node),
      tokenize first = .ok tokens → parse tokens = .ok tree →
      tokenize second = .ok others → parse others = .ok other →
      tree.outline = other.outline → tree = other := by
  constructor
  · intro node names
    have lines := node.paths_haveLines
    refine ⟨_, node.paths, Node.splitOn_outline names, ?_, node.isPreorder_paths, lines⟩
    rw [← lines.length_eq, node.length_paths]
  · intro first second tokens others tree other read parsed alsoRead alsoParsed same
    exact Node.outline_injective (legible_of_source read parsed)
      (legible_of_source alsoRead alsoParsed) same

section Sample

def Program.counter : Node :=
  ⟨.module, none, none, [⟨.globalVar, some (.name "a"), some .i32,
    [⟨.number, some (.int 16), some .i32, []⟩]⟩]⟩

theorem Program.counter_outline :
    (∃ lines paths, counter.outline.toList.splitOn '\n' = lines ++ [[]] ∧
        lines.length = counter.count ∧ counter.IsPreorder paths ∧
        List.Forall₂ counter.HasLine paths lines) ∧
      ∃ tokens others tree other,
        tokenize "int a = 16;" = .ok tokens ∧ parse tokens = .ok tree ∧
        tokenize "int a = 0x10;" = .ok others ∧ parse others = .ok other ∧
        tokens ≠ others ∧ tree.outline = other.outline ∧ tree = other := by
  have names : counter.All fun part => ∀ name, part.name? = some name → '\n' ∉ name.toList := by
    simp [counter, Node.all_mk, Node.name?]
  have decimal : (tokenize "int a = 16;").toOption.bind (fun tokens => (parse tokens).toOption) =
      some counter := by decide +kernel
  have hexadecimal : (tokenize "int a = 0x10;").toOption.bind
      (fun tokens => (parse tokens).toOption) = some counter := by decide +kernel
  have differ : (tokenize "int a = 16;").toOption ≠ (tokenize "int a = 0x10;").toOption := by
    decide +kernel
  obtain ⟨tokens, read, parsed⟩ := Option.bind_eq_some_iff.mp decimal
  obtain ⟨others, alsoRead, alsoParsed⟩ := Option.bind_eq_some_iff.mp hexadecimal
  have apart : tokens ≠ others := by
    rintro rfl
    exact differ (read.trans alsoRead.symm)
  have read := toOption_eq_some.mp read
  have parsed := toOption_eq_some.mp parsed
  have alsoRead := toOption_eq_some.mp alsoRead
  have alsoParsed := toOption_eq_some.mp alsoParsed
  exact ⟨outline_determines_tree.1 counter names, tokens, others, counter, counter, read, parsed,
    alsoRead, alsoParsed, apart, rfl,
    outline_determines_tree.2 _ _ _ _ _ _ read parsed alsoRead alsoParsed rfl⟩

end Sample

end ScalarC
