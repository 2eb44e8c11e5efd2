import ScalarC.Proofs.Image.Basic
import ScalarC.Proofs.Item.Soundness
import ScalarC.Proofs.Phrase.Nodes
import ScalarC.Proofs.Reserved

/-!
An accepted token stream derives in the grammar, and its tree is the image of
the derivation. Elaboration keeps the image and adds types to it; the one thing
it takes from a scope is which names are those of the function.
-/

namespace ScalarC

/-- The names in the frame of a scope, and no other variable of it is local. -/
structure Scope.Frames (locals : List String) (scope : Scope) : Prop where
  frame : ∃ entries, scope.locals = some entries ∧
    (∀ entry ∈ entries, entry.storage.isLocal = true) ∧
    ∀ name, name ∈ locals ↔ ∃ entry ∈ entries, entry.name = name
  globals : ∀ entry ∈ scope.globals, entry.storage.isLocal = false

namespace Scope.Frames

variable {locals : List String} {scope : Scope}

theorem isLocal (frames : scope.Frames locals) {name : String} {found : Variable}
    (is : scope.find? name = some found) : found.storage.isLocal = true ↔ name ∈ locals := by
  obtain ⟨entries, frame, areLocal, same⟩ := frames.frame
  rw [same]
  rcases find?_eq_some.mp is with ⟨_, framed, own⟩ | ⟨none, global⟩
  · cases frame.symm.trans framed
    obtain ⟨member, named⟩ := mem_of_findVariable? own
    constructor
    · intro _
      exact ⟨found, member, named⟩
    · intro _
      exact areLocal found member
  · have notLocal := frames.globals found (mem_of_findVariable? global).1
    constructor
    · intro isLocal
      rw [notLocal] at isLocal
      cases isLocal
    · rintro ⟨entry, member, named⟩
      exact absurd named (findVariable?_eq_none.mp (none entries frame) entry member)

theorem get_eq (frames : scope.Frames locals) {name : String} {found : Variable}
    (is : scope.find? name = some found) :
    found.get = Node.reading locals name (some found.type) := by
  rw [Variable.get, Node.reading, name_of_find? is]
  simp only [frames.isLocal is]

theorem set_eq (frames : scope.Frames locals) {name : String} {found : Variable}
    (is : scope.find? name = some found) (value : Node) :
    found.set value = Node.writing locals name (some found.type) value := by
  rw [Variable.set, Node.writing, name_of_find? is]
  simp only [frames.isLocal is]

theorem declare (frames : scope.Frames locals) {declared entry : Variable} {after : Scope}
    {place : Location} (isLocal : declared.storage.isLocal = true)
    (entered : scope.declareInFunction declared place = .ok (entry, after)) :
    after.Frames (declared.name :: locals) := by
  obtain ⟨entries, frame, areLocal, same⟩ := frames.frame
  obtain ⟨_, framed, _, rfl, rfl⟩ := declareInFunction_eq_ok.mp entered
  cases frame.symm.trans framed
  constructor
  · refine ⟨_, rfl, List.forall_mem_cons.mpr ⟨isLocal, areLocal⟩, ?_⟩
    intro name
    rw [List.mem_cons, List.exists_mem_cons_iff, same, eq_comm]
  · exact frames.globals

end Scope.Frames

theorem Phrase.gives_depicts {scope : Scope} {locals : List String} (frames : scope.Frames locals)
    {phrases : List Phrase} {nodes : List Node} (gives : Gives scope phrases nodes) :
    Depicts locals phrases nodes := by
  induction gives with
  | nil => exact .nil
  | cons _ _ first others => exact .cons first others
  | literal single is => exact .number single is
  | reference found =>
      rw [frames.get_eq found]
      exact .reference
  | call _ _ _ ih => exact .call ih
  | group _ ih => exact .group ih
  | negation single _ _ ih => exact .negation single ih
  | complement _ _ ih => exact .complement ih
  | conversion mixed _ typed other ih => exact .conversion mixed ih (by simpa [typed] using other)
  | unchanged _ typed ih => exact .unchanged ih typed
  | connective _ _ _ _ left right | comparison _ _ _ _ left right
  | arithmetic _ _ _ _ _ left right => exact .binary left right
  | assignment found _ _ _ ih =>
      rw [frames.set_eq found]
      exact .assignment ih
  | compound found _ _ _ _ ih =>
      rw [frames.set_eq found, frames.get_eq found]
      exact .compound ih

theorem Phrase.elaborate_depicts {scope : Scope} {locals : List String}
    (frames : scope.Frames locals) {phrase : Phrase} {type : DataType} {node : Node}
    (elaborated : phrase.elaborate scope type = some node) : Depicts locals [phrase] [node] :=
  gives_depicts frames (elaborate_gives elaborated)

theorem Command.elaborates_depicts {function : Enclosing} {depth : Nat} {scope after : Scope}
    {commands : List Command} {nodes : List Node}
    (elaborates : Elaborates function depth scope commands nodes after) {locals : List String}
    (frames : scope.Frames locals) :
    ∃ names, Depicts function.name locals commands nodes names ∧ after.Frames names := by
  induction elaborates generalizing locals with
  | nil => exact ⟨locals, .nil, frames⟩
  | cons _ _ first others =>
      obtain ⟨_, one, middle⟩ := first frames
      obtain ⟨_, rest, last⟩ := others middle
      exact ⟨_, .cons one rest, last⟩
  | declared entered => exact ⟨_, .declared, frames.declare rfl entered⟩
  | initialized yields entered =>
      exact ⟨_, .initialized (Phrase.elaborate_depicts frames yields.1),
        frames.declare rfl entered⟩
  | returned => exact ⟨locals, .returned, frames⟩
  | returnedValue _ yields =>
      exact ⟨locals, .returnedValue (Phrase.elaborate_depicts frames yields.1), frames⟩
  | branch test _ ih =>
      obtain ⟨_, body, last⟩ := ih frames
      exact ⟨_, .branch (Phrase.elaborate_depicts frames test.1) body, last⟩
  | branchElse test _ _ first second =>
      obtain ⟨_, chosen, middle⟩ := first frames
      obtain ⟨_, alternative, last⟩ := second middle
      exact ⟨_, .branchElse (Phrase.elaborate_depicts frames test.1) chosen alternative, last⟩
  | whileLoop test _ ih =>
      obtain ⟨_, body, last⟩ := ih frames
      exact ⟨_, .whileLoop (Phrase.elaborate_depicts frames test.1) body, last⟩
  | doLoop _ test ih =>
      obtain ⟨_, body, last⟩ := ih frames
      exact ⟨_, .doLoop body (Phrase.elaborate_depicts last test.1), last⟩
  | breakLoop => exact ⟨locals, .breakLoop, frames⟩
  | continueLoop => exact ⟨locals, .continueLoop, frames⟩
  | block _ ih =>
      obtain ⟨_, inner, last⟩ := ih frames
      exact ⟨_, .block inner, last⟩
  | expression elaborated =>
      exact ⟨locals, .expression (Phrase.elaborate_depicts frames elaborated), frames⟩

namespace Item

theorem Declares.frames {scope after : Scope} {parameters : List (Token × DataType)}
    (declares : Declares scope parameters after) {locals : List String}
    (frames : scope.Frames locals) :
    after.Frames ((parameters.map fun parameter => parameter.1.text).reverse ++ locals) := by
  induction declares generalizing locals with
  | nil => exact frames
  | cons entered _ ih => simpa using ih (frames.declare rfl entered)

/-- Elaboration types the image of an item, and keeps the variables of the module global. -/
theorem Elaborates.depicts {scope after : Scope} {item : Item} {node : Node}
    (elaborates : item.Elaborates scope node after)
    (globals : ∀ entry ∈ scope.globals, entry.storage.isLocal = false) :
    item.Depicts node ∧ ∀ entry ∈ after.globals, entry.storage.isLocal = false := by
  have declared (constant : Bool) :
      (if constant = true then Storage.globalConstant else .globalVariable).isLocal = false := by
    cases constant <;> rfl
  cases elaborates with
  | unset declares =>
      obtain ⟨_, rfl, rfl⟩ := Scope.declareGlobal_eq_ok.mp declares
      exact ⟨.unset, List.forall_mem_cons.mpr ⟨declared false, globals⟩⟩
  | set declares converted =>
      obtain ⟨_, rfl, rfl⟩ := Scope.declareGlobal_eq_ok.mp declares
      exact ⟨.set converted, List.forall_mem_cons.mpr ⟨declared _, globals⟩⟩
  | @function _ _ _ _ _ given _ _ parameters declares body =>
      have entering : scope.enterFunction.Frames [] := ⟨⟨[], rfl, by simp, by simp⟩, globals⟩
      obtain ⟨_, rfl⟩ := Scope.declareFunction_eq_ok.mp declares
      obtain ⟨⟨entries, frame, areLocal, same⟩, others⟩ := parameters.frames entering
      -- Which names are declared matters, not in which order the scope holds them.
      have named (name : String) : name ∈ given.map (fun parameter => parameter.1.text) ↔
          ∃ entry ∈ entries, entry.name = name := by
        simpa using same name
      obtain ⟨names, depicts, left⟩ := Command.elaborates_depicts body
        ⟨⟨entries, frame, areLocal, named⟩, others⟩
      exact ⟨.function depicts, left.globals⟩

end Item

theorem Program.elaborates_depicts {scope after : Scope} {items : List Item} {nodes : List Node}
    (elaborates : Elaborates scope items nodes after)
    (globals : ∀ entry ∈ scope.globals, entry.storage.isLocal = false) :
    List.Forall₂ Item.Depicts items nodes := by
  induction elaborates with
  | nil => exact .nil
  | cons first _ ih =>
      obtain ⟨depicts, globals⟩ := first.depicts globals
      exact .cons depicts (ih globals)

/-- Where no identifier is spelled like a type, the words that declare one are keywords. -/
theorem TypesReserved.names_of_declares {tokens : List Token} (reserved : TypesReserved tokens)
    {word : Token} (member : word ∈ tokens) {type : DataType} (declares : word.Declares type) :
    word.NamesType type := by
  obtain ⟨kind, spelled⟩ := declares
  have notIdentifier : word.kind ≠ .identifier := by
    intro isIdentifier
    apply reserved word member isIdentifier
    unfold DataType.ofWord? at spelled
    grind
  exact ⟨kind.resolve_right notIdentifier, spelled⟩

/-- The words of the types are reserved in a scanned source, and wherever they are, an accepted
token stream is a program and its end of input, and its tree depicts that program. -/
theorem parse_depicts :
    (∀ source tokens, tokenize source = .ok tokens → TypesReserved tokens) ∧
      ∀ tokens module, TypesReserved tokens → parse tokens = .ok module →
        ∃ read finish items, tokens = read ++ [finish] ∧ Closed read finish ∧
          Program.Derives Token.NamesType read items ∧ Program.Depicts items module := by
  constructor
  · intro source tokens read
    exact tokenize_reserved read
  · intro tokens module reserved parsed
    obtain ⟨read, finish, items, nodes, final, rfl, closed, derives, elaborates, rfl⟩ :=
      parse_reads parsed
    have strict : Program.Derives Token.NamesType read items := by
      apply derives.mono
      intro token member type declares
      exact reserved.names_of_declares (List.mem_append_left _ member) declares
    have depicts := Program.elaborates_depicts elaborates (by simp [Scope.empty])
    exact ⟨read, finish, items, rfl, closed, strict, nodes, rfl, depicts⟩

theorem sample_depicts :
    ∃ tokens, tokenize Program.sample = .ok tokens ∧ TypesReserved tokens ∧
      parse tokens = .ok Program.sampleTree ∧
      ∃ read finish items, tokens = read ++ [finish] ∧ Closed read finish ∧
        Program.Derives Token.NamesType read items ∧
        Program.Depicts items Program.sampleTree := by
  obtain ⟨tokens, read, parsed⟩ := Program.sample_accepted
  have reserved := parse_depicts.1 _ _ read
  exact ⟨tokens, read, reserved, parsed, parse_depicts.2 _ _ reserved parsed⟩

end ScalarC
