import Mathlib.Data.List.Forall2
import ScalarC.Proofs.Braces.Exchange
import ScalarC.Proofs.Resolution.Events

/-!
Nodes gathered in a block. A block is no use of a name, so the names in the tree
stay the same, in the same order, and so does what they refer to.
-/

namespace ScalarC

namespace Node

/-- The nodes of a run, gathered in a block at the end of the path. All others are the same. -/
inductive Gathers (run : List Node) : List Nat → Node → Node → Prop where
  | here {tag : Tag} {value : Option NodeValue} {type : Option DataType} (left right : List Node) :
      Gathers run [left.length] ⟨tag, value, type, left ++ run ++ right⟩
        ⟨tag, value, type, left ++ ⟨.block, none, none, run⟩ :: right⟩
  | within {tag : Tag} {value : Option NodeValue} {type : Option DataType} {path : List Nat}
      {child other : Node} (left right : List Node) :
      Gathers run path child other →
      Gathers run (left.length :: path) ⟨tag, value, type, left ++ child :: right⟩
        ⟨tag, value, type, left ++ other :: right⟩

theorem Gathers.among {run nodes others : List Node} {place : Nat} {path : List Nat} {tag : Tag}
    {value : Option NodeValue} {type : Option DataType} (left right : List Node)
    (gathers : Gathers run (place :: path) ⟨tag, value, type, nodes⟩ ⟨tag, value, type, others⟩) :
    Gathers run ((left.length + place) :: path) ⟨tag, value, type, left ++ nodes ++ right⟩
      ⟨tag, value, type, left ++ others ++ right⟩ := by
  cases gathers with
  | here front behind =>
      simpa using Gathers.here (left ++ front) (behind ++ right)
  | within front behind inner =>
      simpa using Gathers.within (left ++ front) (behind ++ right) inner

def GathersIn (count : Nat) (path : List Nat) (nodes others : List Node) : Prop :=
  ∃ run, run.length = count ∧ ∀ tag value type,
    Gathers run path ⟨tag, value, type, nodes⟩ ⟨tag, value, type, others⟩

theorem gathersIn_congruent (count : Nat) : Congruent (GathersIn count) := by
  constructor
  · rintro place path nodes others left right ⟨run, length, gathers⟩
    exact ⟨run, length, fun tag value type => (gathers tag value type).among left right⟩
  · rintro path nodes others tag value type ⟨run, length, gathers⟩
    exact ⟨run, length, fun _ _ _ => .within [] [] (gathers tag value type)⟩

theorem eq_congruent : Congruent fun _ nodes others => nodes = others := by
  constructor
  · rintro _ _ _ _ left right rfl
    rfl
  · rintro _ _ _ tag value type rfl
    rfl

theorem eventsAll_append (nodes others : List Node) :
    eventsAll (nodes ++ others) = eventsAll nodes ++ eventsAll others := by
  induction nodes with
  | nil => rfl
  | cons node nodes ih => simp [ih]

theorem Gathers.events {run : List Node} {path : List Nat} {node other : Node}
    (gathers : Gathers run path node other) : node.events = other.events := by
  -- What a node does with a name by itself does not depend on its children.
  induction gathers with
  | here left right =>
      simp only [Node.events, eventsAll_append, eventsAll_cons, List.append_assoc]
      rfl
  | within left right _ ih =>
      simp only [Node.events, eventsAll_append, eventsAll_cons, ih]
      rfl

/-- Items of a module that are the same from outside and have the same names in them. -/
structure SameNames (item other : Node) : Prop where
  tag : other.tag = item.tag
  value : other.value = item.value
  type : other.type = item.type
  events : other.events = item.events

theorem Gathers.sameNames {run : List Node} {item place : Nat} {path : List Nat}
    {module other : Node} (gathers : Gathers run (item :: place :: path) module other) :
    List.Forall₂ SameNames module.children other.children := by
  have same (nodes : List Node) : List.Forall₂ SameNames nodes nodes :=
    List.forall₂_same.mpr fun _ _ => ⟨rfl, rfl, rfl, rfl⟩
  cases gathers with
  | within left right inner =>
      refine List.rel_append (same left) (.cons ⟨?_, ?_, ?_, inner.events.symm⟩ (same right))
      all_goals cases inner <;> rfl

/-- What a name in a module refers to: a declaration in its own function, by its place among the
names there, or an item of the module. -/
inductive Referent where
  | own (place : Nat)
  | item (place : Nat)
  deriving DecidableEq

/-- What the name at a place of an item refers to, which has its type. -/
def referent? (module : Node) (item place : Nat) : Option Referent := do
  let names ← module.children[item]?.map events
  let event ← names[place]?
  match event with
  | .usesLocal name type => ((names.take place).findIdx? (· = .declares name type)).map .own
  | .usesGlobal name type _ =>
      ((module.children.take item).findIdx? fun other =>
        other.tag = .globalVar ∧ other.name? = some name ∧ other.type = some type).map .item
  | .calls name =>
      ((module.children.take (item + 1)).findIdx? fun other =>
        other.functionName? = some name).map .item
  | .declares _ _ | .unnamed => none

theorem findIdx?_same {nodes others : List Node} (same : List.Forall₂ SameNames nodes others)
    (test : Node → Bool) (respects : ∀ node other, SameNames node other → test other = test node) :
    others.findIdx? test = nodes.findIdx? test := by
  induction same with
  | nil => rfl
  | cons first _ ih => simp [List.findIdx?_cons, respects _ _ first, ih]

theorem getElem?_same {nodes others : List Node} (same : List.Forall₂ SameNames nodes others)
    (place : Nat) : others[place]?.map Node.events = nodes[place]?.map Node.events := by
  induction same generalizing place with
  | nil => rfl
  | cons first _ ih =>
      cases place with
      | zero => simp [first.events]
      | succ place => simpa using ih place

theorem referent?_same {module other : Node}
    (same : List.Forall₂ SameNames module.children other.children) (item place : Nat) :
    other.referent? item place = module.referent? item place := by
  have before (count : Nat) : List.Forall₂ SameNames (module.children.take count)
      (other.children.take count) := List.forall₂_take count same
  have named (node also : Node) (same : SameNames node also) : also.name? = node.name? := by
    simp [name?, same.value]
  unfold referent?
  rw [getElem?_same same]
  cases module.children[item]?.map events with
  | none => rfl
  | some names =>
      cases found : names[place]? with
      | none => simp [found]
      | some event =>
          cases event with
          | declares | unnamed | usesLocal => simp [found]
          | usesGlobal name type writes =>
              have globals := findIdx?_same (before item)
                (fun other => other.tag = .globalVar ∧ other.name? = some name ∧
                  other.type = some type)
                fun node also same => by simp [same.tag, named node also same, same.type]
              simp only [Option.bind_eq_bind, Option.bind_some, found, globals]
          | calls name =>
              have functions := findIdx?_same (before (item + 1))
                (fun other => other.functionName? = some name)
                fun node also same => by simp [functionName?, same.tag, named node also same]
              simp only [Option.bind_eq_bind, Option.bind_some, found, functions]

end Node

end ScalarC
