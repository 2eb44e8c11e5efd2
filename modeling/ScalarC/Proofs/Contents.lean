import Mathlib.Logic.Equiv.Basic
import ScalarC.Proofs.Spelling.Cutting
import ScalarC.Proofs.Twins.Program
import ScalarC.Proofs.Typing.Soundness

/-!
What the nodes of a tree hold. The tree of an accepted stream holds finite
doubles only, since a number has to suit its type. And it holds no names but
those of the stream: a parse goes on in the same way when any others are
exchanged, so the tree cannot have them.
-/

namespace ScalarC

namespace Node

@[elab_as_elim, induction_eliminator]
theorem induct {motive : Node → Prop}
    (mk : ∀ tag value type children, (∀ child ∈ children, motive child) →
      motive ⟨tag, value, type, children⟩)
    (node : Node) : motive node :=
  visit node
where
  visit : ∀ node, motive node
  | ⟨tag, value, type, children⟩ => mk tag value type children fun child _ => visit child

mutual

def All (holds : Node → Prop) : Node → Prop
  | ⟨tag, value, type, children⟩ => holds ⟨tag, value, type, children⟩ ∧ AllOf holds children

def AllOf (holds : Node → Prop) : List Node → Prop
  | [] => True
  | node :: rest => All holds node ∧ AllOf holds rest

end

theorem allOf_iff {holds : Node → Prop} {nodes : List Node} :
    AllOf holds nodes ↔ ∀ node ∈ nodes, node.All holds := by
  induction nodes with
  | nil => simp [AllOf]
  | cons node nodes ih => simp [AllOf, ih]

theorem all_mk {holds : Node → Prop} {tag : Tag} {value : Option NodeValue}
    {type : Option DataType} {children : List Node} :
    All holds ⟨tag, value, type, children⟩ ↔
      holds ⟨tag, value, type, children⟩ ∧ ∀ child ∈ children, child.All holds := by
  rw [All, allOf_iff]

theorem all_of_forall {holds : Node → Prop} (each : ∀ part, holds part) (node : Node) :
    node.All holds := by
  induction node with
  | mk tag value type children ih => exact all_mk.mpr ⟨each _, ih⟩

theorem All.mono {holds also : Node → Prop} {node : Node} (all : node.All holds)
    (entails : ∀ part, holds part → also part) : node.All also := by
  induction node with
  | mk tag value type children ih =>
      obtain ⟨root, below⟩ := all_mk.mp all
      exact all_mk.mpr ⟨entails _ root, fun child member => ih child member (below child member)⟩

theorem All.and {holds also : Node → Prop} {node : Node} (first : node.All holds)
    (second : node.All also) : node.All fun part => holds part ∧ also part := by
  induction node with
  | mk tag value type children ih =>
      obtain ⟨root, below⟩ := all_mk.mp first
      obtain ⟨alsoRoot, alsoBelow⟩ := all_mk.mp second
      exact all_mk.mpr ⟨⟨root, alsoRoot⟩,
        fun child member => ih child member (below child member) (alsoBelow child member)⟩

theorem all_forall {α : Type} {holds : α → Node → Prop} {node : Node}
    (each : ∀ index, node.All (holds index)) : node.All fun part => ∀ index, holds index part := by
  induction node with
  | mk tag value type children ih =>
      simp only [all_mk] at each ⊢
      exact ⟨fun index => (each index).1,
        fun child member => ih child member fun index => (each index).2 child member⟩

def FloatsFinite (node : Node) : Prop :=
  node.All fun part => ∀ double, part.value = some (.float double) → double.isFinite = true

@[simp] theorem floatsFinite_mk {tag : Tag} {value : Option NodeValue} {type : Option DataType}
    {children : List Node} :
    FloatsFinite ⟨tag, value, type, children⟩ ↔
      (∀ double, value = some (.float double) → double.isFinite = true) ∧
        ∀ child ∈ children, child.FloatsFinite :=
  all_mk

end Node

/-! Finite doubles. -/

theorem Binary64.isFinite_of_isFinite32 {value : Binary64} (fits : value.isFinite32 = true) :
    value.isFinite = true :=
  (Bool.and_eq_true_iff.mp fits).1

theorem NodeValue.Suits.finite {type : DataType} {double : Binary64}
    (suits : (NodeValue.float double).Suits type) : double.isFinite = true := by
  have fits := suits.2
  split at fits
  · exact Binary64.isFinite_of_isFinite32 fits
  · exact fits

namespace Node

variable {calls : String → Signature → Prop} {function : Enclosing} {node : Node}

theorem number_floatsFinite {value : NodeValue} {type : DataType} (suits : value.Suits type) :
    FloatsFinite ⟨.number, some value, some type, []⟩ := by
  simp only [floatsFinite_mk, List.not_mem_nil, false_implies, implies_true, and_true]
  rintro double ⟨⟩
  exact suits.finite

theorem IsValue.floatsFinite (isValue : node.IsValue calls) : node.FloatsFinite := by
  induction isValue with
  | number suits => exact number_floatsFinite suits
  | _ => simp_all

theorem IsStatement.floatsFinite (isStatement : node.IsStatement calls function) :
    node.FloatsFinite := by
  induction isStatement with
  | assignment _ value => exact value.floatsFinite
  | initialization value | returnedValue _ value | expression value =>
      simpa using value.floatsFinite
  | branch test _ _ _ chosen | whileLoop test _ _ _ chosen =>
      simpa using ⟨test.floatsFinite, chosen⟩
  | branchElse test _ _ _ _ _ chosen alternative =>
      simpa using ⟨test.floatsFinite, chosen, alternative⟩
  | doLoop _ _ test _ repeated => simpa using ⟨repeated, test.floatsFinite⟩
  | block _ ih => simpa using ih
  | _ => simp

theorem IsItem.floatsFinite (isItem : node.IsItem calls) : node.FloatsFinite := by
  cases isItem with
  | global => simp
  | initialized suits => simpa using number_floatsFinite suits
  | function statements =>
      have body := fun statement member => (statements statement member).floatsFinite
      have leaf (parameter : String × DataType) :
          (Declaration.parameterNode parameter).FloatsFinite := by
        simp [Declaration.parameterNode]
      simp only [floatsFinite_mk, List.forall_mem_cons, List.forall_mem_map]
      simpa using ⟨fun name type _ => leaf (name, type), body⟩

end Node

/-- The doubles of every accepted stream's tree are finite. -/
theorem floatsFinite_of_parse {tokens : List Token} {module : Node}
    (parsed : parse tokens = .ok module) : module.FloatsFinite := by
  obtain ⟨_, _, items, nodes, _, _, _, _, elaborates, rfl⟩ := parse_reads parsed
  have within : Scope.empty.Within fun _ _ => True := fun _ _ _ => trivial
  have isItem := Program.elaborates_isItem elaborates within fun _ _ _ => trivial
  simpa using fun child member => (isItem child member).floatsFinite

/-! Names. -/

namespace Twins

/-- A stream is its own twin where other names than those of its identifiers are exchanged. -/
def exchanged (first second : String)
    (types : ∀ word ∈ ["int", "long", "float", "double"], word ≠ first ∧ word ≠ second) :
    Twins where
  rename := Equiv.swap first second
  injective := (Equiv.swap first second).injective
  types word member := Equiv.swap_apply_of_ne_of_ne (types word member).1 (types word member).2
  pair one other := other = one ∧ (one.kind = .identifier → one.text ≠ first ∧ one.text ≠ second)
  lexeme := by
    intro one other ⟨same, apart⟩
    subst other
    by_cases named : one.kind = .identifier
    · have kept := Equiv.swap_apply_of_ne_of_ne (apart named).1 (apart named).2
      rw [Lexeme.renamed, if_pos named, kept]
    · exact (Lexeme.renamed_of_other named).symm

theorem tree_of_parse (twins : Twins) {tokens : List Token} {tree : Node}
    (parsed : parse tokens = .ok tree) (streams : List.Forall₂ twins.pair tokens tokens) :
    tree = tree.renamed twins.rename := by
  have filled : tokens ≠ [] := by
    rintro rfl
    cases parsed
  have agree := twins.parse_agree streams filled
  rw [parsed] at agree
  cases agree with
  | ok both => exact both

end Twins

namespace Node

theorem name?_eq_some {node : Node} {name : String} :
    node.name? = some name ↔ node.value = some (.name name) := by
  unfold name?
  split <;> simp_all

/-- A tree that an exchange of names leaves as it is does not have them. -/
theorem name_ne_of_exchanged {first second : String} (differ : first ≠ second) {node : Node}
    (same : node = node.renamed (Equiv.swap first second)) :
    node.All fun part => part.name? ≠ some first := by
  induction node with
  | mk tag value type children ih =>
      rw [renamed_mk, mk.injEq] at same
      obtain ⟨_, values, _, nodes⟩ := same
      refine all_mk.mpr ⟨?_, fun child member => ih child member ?_⟩
      · rintro named
        obtain rfl : value = some (.name first) := name?_eq_some.mp named
        have kept : first = Equiv.swap first second first :=
          NodeValue.name.inj (Option.some.inj values)
        exact differ (kept.trans (Equiv.swap_apply_left first second))
      · have fixed : children.map id = children.map (renamed (Equiv.swap first second)) := by
          rw [List.map_id, ← nodes]
        exact List.map_inj_left.mp fixed child member

def NamesSpelled (node : Node) : Prop :=
  node.All fun part => ∀ name, part.name? = some name → Scanner.IsWord name.toList

end Node

theorem isWord_of_type {word : String} (type : word ∈ ["int", "long", "float", "double"]) :
    Scanner.IsWord word.toList := by
  simp only [List.mem_cons, List.not_mem_nil, or_false] at type
  rcases type with rfl | rfl | rfl | rfl
  · exact ⟨'i', "nt".toList, by decide, by decide, List.all_eq_true.mp (by decide)⟩
  · exact ⟨'l', "ong".toList, by decide, by decide, List.all_eq_true.mp (by decide)⟩
  · exact ⟨'f', "loat".toList, by decide, by decide, List.all_eq_true.mp (by decide)⟩
  · exact ⟨'d', "ouble".toList, by decide, by decide, List.all_eq_true.mp (by decide)⟩

theorem exists_other_noWord (name : String) :
    ∃ other, name ≠ other ∧ ¬ Scanner.IsWord other.toList := by
  by_cases empty : name = ""
  · exact ⟨" ", by simp [empty], by simp [Scanner.IsWord, Scanner.startsWord]⟩
  · exact ⟨"", empty, by simp [Scanner.IsWord]⟩

/-- Streams whose identifiers are words have trees whose names are. -/
theorem namesSpelled_of_parse {tokens : List Token} {tree : Node}
    (parsed : parse tokens = .ok tree)
    (spelled : ∀ token ∈ tokens, token.kind = .identifier → Scanner.IsWord token.text.toList) :
    tree.NamesSpelled := by
  have absent : tree.All fun part =>
      ∀ name : {name : String // ¬ Scanner.IsWord name.toList}, part.name? ≠ some name.val := by
    refine Node.all_forall fun ⟨name, noWord⟩ => ?_
    -- The name is exchanged with another one that is no word either.
    obtain ⟨other, differ, also⟩ := exists_other_noWord name
    have apart {word : String} (isWord : Scanner.IsWord word.toList) : word ≠ name ∧ word ≠ other :=
      ⟨fun same => noWord (same ▸ isWord), fun same => also (same ▸ isWord)⟩
    let twins := Twins.exchanged name other fun word member => apart (isWord_of_type member)
    have streams : List.Forall₂ twins.pair tokens tokens := List.forall₂_same.mpr
      fun token member => ⟨rfl, fun named => apart (spelled token member named)⟩
    exact Node.name_ne_of_exchanged differ (twins.tree_of_parse parsed streams)
  refine absent.mono fun part absent name named => ?_
  by_contra noWord
  exact absent ⟨name, noWord⟩ named

theorem Cut.identifiers_spelled {before text : List Char} {tokens : List Token}
    (cut : Cut before text tokens) :
    ∀ token ∈ tokens, token.kind = .identifier → Scanner.IsWord token.text.toList := by
  induction cut with
  | finish _ => exact List.forall_mem_singleton.mpr nofun
  | token _ spelled _ _ ih =>
      refine List.forall_mem_cons.mpr ⟨fun named => ?_, ih⟩
      cases spelled with
      | identifier isWord => exact isWord
      | _ => cases named

end ScalarC
