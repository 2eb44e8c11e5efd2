import Mathlib.Data.List.Infix
import ScalarC.Proofs.Item.Separation

/-!
Programs grow from left to right. The tokens of an accepted program fall into
one piece per declaration, in one way only. A prefix of the program is a
program exactly if it ends between two pieces, and its tree holds the first
children of the whole tree, so no declaration is seen differently for what is
written behind it.
-/

namespace ScalarC

open Parse

namespace Program

/-- The tokens of a program, with one piece for each of its declarations. -/
structure Pieces (tokens : List Token) (pieces : List (List Token)) : Prop where
  together : pieces.flatten = tokens
  each : ∀ piece ∈ pieces, ∃ item : Item, item.Derives Token.Declares piece

theorem Pieces.nil : Pieces [] [] :=
  ⟨rfl, nofun⟩

theorem Pieces.cons {piece tokens : List Token} {pieces : List (List Token)} {item : Item}
    (first : item.Derives Token.Declares piece) (others : Pieces tokens pieces) :
    Pieces (piece ++ tokens) (piece :: pieces) where
  together := by rw [List.flatten_cons, others.together]
  each := List.forall_mem_cons.mpr ⟨⟨item, first⟩, others.each⟩

theorem Pieces.append {first second : List Token} {pieces others : List (List Token)}
    (left : Pieces first pieces) (right : Pieces second others) :
    Pieces (first ++ second) (pieces ++ others) where
  together := by rw [List.flatten_append, left.together, right.together]
  each := List.forall_mem_append.mpr ⟨left.each, right.each⟩

theorem Pieces.sublist {tokens : List Token} {pieces others : List (List Token)}
    (cut : Pieces tokens pieces) (some : others.Sublist pieces) : Pieces others.flatten others where
  together := rfl
  each := fun piece member => cut.each piece (some.subset member)

theorem Pieces.of_derives {tokens : List Token} {items : List Item}
    (derives : Derives Token.Declares tokens items) : ∃ pieces, Pieces tokens pieces := by
  induction derives with
  | nil => exact ⟨[], .nil⟩
  | cons first _ ih =>
      obtain ⟨pieces, cut⟩ := ih
      exact ⟨_, cut.cons first⟩

theorem Pieces.does {tokens : List Token} {pieces : List (List Token)}
    (cut : Pieces tokens pieces) :
    ∃ items effect, Does tokens items effect ∧
      ∀ scope found, effect scope = .ok found → found.1.length = pieces.length := by
  obtain ⟨rfl, each⟩ := cut
  induction pieces with
  | nil =>
      refine ⟨[], _, does_nil, ?_⟩
      intro scope found done
      cases done
      rfl
  | cons piece pieces ih =>
      obtain ⟨⟨item, derives⟩, others⟩ := List.forall_mem_cons.mp each
      obtain ⟨single, one⟩ := derives.does
      obtain ⟨items, effect, more, counted⟩ := ih others
      refine ⟨item :: items, _, does_cons derives.ne_nil one more, ?_⟩
      intro scope found done
      obtain ⟨first, _, done⟩ := bind_eq_ok.mp done
      obtain ⟨further, ran, done⟩ := bind_eq_ok.mp done
      cases done
      rw [List.length_cons, List.length_cons, counted _ _ ran]

/-- A declaration that is accepted ends at one place only. -/
theorem declaration_ends {state : State} {first second rest further : List Token}
    {item other : Item} {found : Node × State} (outside : state.function = none)
    (noLoop : state.loopDepth = 0) (one : item.Derives Token.Declares first)
    (two : other.Derives Token.Declares second) (split : state.unread = first ++ rest)
    (also : state.unread = second ++ further)
    (done : outcome Declaration.declaration state = .ok found) :
    first = second ∧ found.2.unread = rest := by
  obtain ⟨_, here⟩ := one.does
  obtain ⟨_, there⟩ := two.does
  have ran := here.declaration outside noLoop split
  have again := there.declaration outside noLoop also
  rw [done] at ran again
  obtain ⟨_, _, ran⟩ := bind_eq_ok.mp ran.symm
  obtain ⟨_, _, again⟩ := bind_eq_ok.mp again.symm
  cases ran
  have same : further = rest := congrArg (fun found => found.2.unread) (Except.ok.inj again)
  rw [split, same] at also
  exact ⟨List.append_cancel_right also, rfl⟩

/-- The tokens of accepted declarations fall into pieces in one way only. -/
theorem pieces_unique {bound : Nat} {state : State} {result : List Node × State}
    {pieces others : List (List Token)} (outside : state.function = none)
    (noLoop : state.loopDepth = 0) (one : Pieces state.unread pieces)
    (two : Pieces state.unread others) (enough : state.unread.length ≤ bound)
    (done : outcome (declarations bound) state = .ok result) : pieces = others := by
  induction pieces generalizing bound state result others with
  | nil =>
      have nothing : others.flatten = [] := two.together.trans one.together.symm
      cases others with
      | nil => rfl
      | cons piece others =>
          obtain ⟨item, derives⟩ := two.each piece List.mem_cons_self
          exact absurd (List.append_eq_nil_iff.mp nothing).1 derives.ne_nil
  | cons piece pieces ih =>
      obtain ⟨⟨item, derives⟩, _⟩ := List.forall_mem_cons.mp one.each
      have split : state.unread = piece ++ pieces.flatten := one.together.symm
      have present : state.unread ≠ [] := by
        rw [split]
        exact List.append_ne_nil_of_left_ne_nil derives.ne_nil _
      cases others with
      | nil => exact absurd two.together.symm present
      | cons other others =>
          obtain ⟨⟨_, derived⟩, _⟩ := List.forall_mem_cons.mp two.each
          have length := congrArg List.length split
          have progress := List.length_pos_iff.mpr derives.ne_nil
          rw [List.length_append] at length
          obtain ⟨bound, rfl⟩ := Nat.exists_eq_succ_of_ne_zero (show bound ≠ 0 by omega)
          simp only [declarations, outcome_bind, outcome_unreadCount, ok_bind, outcome_ite,
            List.length_eq_zero_iff, present, ↓reduceIte, bind_eq_ok] at done
          obtain ⟨found, first, _, ran, _⟩ := done
          obtain ⟨rfl, behind⟩ :=
            declaration_ends outside noLoop derives derived split two.together.symm first
          obtain ⟨_, _, passes, _⟩ := Item.declaration_reads outside noLoop first
          have same : pieces.flatten = others.flatten := by
            have both := one.together.trans two.together.symm
            exact List.append_cancel_left both
          rw [ih (passes.function.trans outside) (passes.loopDepth.trans noLoop)
            (behind ▸ one.sublist (List.sublist_cons_self ..))
            (behind ▸ same ▸ two.sublist (List.sublist_cons_self ..))
            (by rw [behind]; omega) ran]

theorem pieces_of_accepted {tokens : List Token} {finish : Token} {module : Node}
    (accepted : parse (tokens ++ [finish]) = .ok module) :
    ∃ pieces, Pieces tokens pieces ∧ ∀ others, Pieces tokens others → others = pieces := by
  obtain ⟨read, last, items, _, _, same, _, derives, _⟩ := parse_reads accepted
  obtain ⟨rfl, -⟩ := List.append_inj' same rfl
  obtain ⟨pieces, cut⟩ := Pieces.of_derives derives
  obtain ⟨closes, inner⟩ := Closed.of_accepted accepted
  rw [parse_closed closes inner (Nat.le_refl _)] at accepted
  obtain ⟨_, done, _⟩ := bind_eq_ok.mp accepted
  refine ⟨pieces, cut, fun others also => ?_⟩
  have start : (State.before tokens finish closes).unread = tokens := rfl
  exact pieces_unique rfl rfl (start.symm ▸ also) (start.symm ▸ cut) (Nat.le_refl _) done

theorem Pieces.accepted {before rest : List Token} {pieces : List (List Token)}
    {finish closing : Token} {module : Node} (cut : Pieces before pieces)
    (closes : closing.kind = .endOfInput)
    (accepted : parse (before ++ rest ++ [finish]) = .ok module) :
    ∃ known behind further, parse (before ++ [closing]) = .ok ⟨.module, none, none, known⟩ ∧
      known.length = pieces.length ∧ module = ⟨.module, none, none, known ++ behind⟩ ∧
      Pieces rest further := by
  obtain ⟨items, effect, does, counted⟩ := cut.does
  obtain ⟨ends, inner⟩ := Closed.of_accepted accepted
  rw [does.parse_append ends inner (Nat.le_refl _)] at accepted
  obtain ⟨known, done, accepted⟩ := bind_eq_ok.mp accepted
  obtain ⟨behind, ran, accepted⟩ := bind_eq_ok.mp accepted
  have enough : rest.length ≤ (before ++ rest).length := by simp
  obtain ⟨_, _, derives, _⟩ := declarations_read rfl rfl enough ran
  obtain ⟨further, others⟩ := Pieces.of_derives derives
  refine ⟨known.1, behind.1, further, ?_, counted _ _ done, (Except.ok.inj accepted).symm, others⟩
  rw [does.parse_all closes (List.forall_mem_append.mp inner).1, done, ok_bind]

theorem Pieces.accepted_first {tokens : List Token} {pieces : List (List Token)}
    {finish closing : Token} {module : Node} (cut : Pieces tokens pieces)
    (closes : closing.kind = .endOfInput) (accepted : parse (tokens ++ [finish]) = .ok module)
    {count : Nat} (bounded : count ≤ pieces.length) :
    parse ((pieces.take count).flatten ++ [closing]) =
      .ok ⟨.module, none, none, module.children.take count⟩ := by
  have split : tokens = (pieces.take count).flatten ++ (pieces.drop count).flatten := by
    rw [← List.flatten_append, List.take_append_drop, cut.together]
  rw [split] at accepted
  have first := cut.sublist (List.take_sublist count pieces)
  obtain ⟨known, _, _, done, counted, rfl, _⟩ := first.accepted closes accepted
  rw [List.length_take_of_le bounded] at counted
  rw [done, List.take_left' counted]

theorem Pieces.counted {tokens : List Token} {pieces : List (List Token)} {finish : Token}
    {module : Node} (cut : Pieces tokens pieces)
    (accepted : parse (tokens ++ [finish]) = .ok module) :
    module.children.length = pieces.length := by
  have whole : parse (tokens ++ [] ++ [finish]) = .ok module := by rwa [List.append_nil]
  obtain ⟨known, _, _, done, counted, _⟩ :=
    cut.accepted (Closed.of_accepted accepted).1 whole
  rw [accepted] at done
  cases done
  exact counted

/-- A prefix that is accepted ends between two pieces. -/
theorem boundary_of_accepted {before rest : List Token} {pieces : List (List Token)}
    {finish closing : Token} {module known : Node}
    (only : ∀ others, Pieces (before ++ rest) others → others = pieces)
    (accepted : parse (before ++ rest ++ [finish]) = .ok module)
    (done : parse (before ++ [closing]) = .ok known) :
    ∃ count ≤ pieces.length, before = (pieces.take count).flatten := by
  obtain ⟨first, start, _⟩ := pieces_of_accepted done
  obtain ⟨_, _, further, _, _, _, others⟩ := start.accepted (Closed.of_accepted done).1 accepted
  obtain rfl := only _ (start.append others)
  refine ⟨first.length, by simp, ?_⟩
  rw [List.take_left, start.together]

theorem not_boundary {pieces : List (List Token)} {count : Nat} {piece part more : List Token}
    (here : pieces[count]? = some piece) (split : piece = part ++ more) (started : part ≠ [])
    (unfinished : more ≠ []) (other : Nat) :
    (pieces.take count).flatten ++ part ≠ (pieces.take other).flatten := by
  intro same
  have length := congrArg List.length same
  have present := List.length_pos_iff.mpr started
  have missing := List.length_pos_iff.mpr unfinished
  rw [List.length_append] at length
  have grows {less more : Nat} (le : less ≤ more) :
      (pieces.take less).flatten.length ≤ (pieces.take more).flatten.length :=
    (List.take_isPrefix_take.mpr (.inl le)).flatten.length_le
  by_cases before : other ≤ count
  · have bound := grows before
    omega
  · have bound := grows (show count + 1 ≤ other by omega)
    rw [List.take_add_one, here, split, List.flatten_append, List.length_append] at bound
    rw [Option.toList_some, List.flatten_singleton, List.length_append] at bound
    omega

/-- How an accepted program grows, declaration by declaration. -/
structure Grows (tokens : List Token) (module : Node) (pieces : List (List Token)) : Prop where
  cut : Pieces tokens pieces
  only : ∀ others, Pieces tokens others → others = pieces
  counted : module.children.length = pieces.length
  /-- A prefix is a program exactly if it ends between two declarations. -/
  boundary : ∀ before rest closing, tokens = before ++ rest → closing.kind = .endOfInput →
    ((∃ known, parse (before ++ [closing]) = .ok known) ↔
      ∃ count ≤ pieces.length, before = (pieces.take count).flatten)
  children : ∀ count ≤ pieces.length, ∀ closing, closing.kind = .endOfInput →
    parse ((pieces.take count).flatten ++ [closing]) =
      .ok ⟨.module, none, none, module.children.take count⟩
  /-- What is written behind a program leaves its declarations as they were. -/
  kept : ∀ before rest closing known, tokens = before ++ rest →
    parse (before ++ [closing]) = .ok known →
    ∃ further, module.children = known.children ++ further
  inside : ∀ count piece part more, pieces[count]? = some piece → piece = part ++ more →
    part ≠ [] → more ≠ [] → ∀ closing known,
      parse ((pieces.take count).flatten ++ part ++ [closing]) ≠ .ok known

end Program

/-- An accepted program falls into the pieces of its declarations, and exactly the prefixes that
end between them are programs, with the same first children. -/
theorem parse_grows {tokens : List Token} {finish : Token} {module : Node}
    (accepted : parse (tokens ++ [finish]) = .ok module) :
    ∃ pieces, Program.Grows tokens module pieces := by
  obtain ⟨pieces, cut, only⟩ := Program.pieces_of_accepted accepted
  have reaches (before rest : List Token) (closing : Token) (known : Node)
      (split : tokens = before ++ rest) (done : parse (before ++ [closing]) = .ok known) :
      ∃ count ≤ pieces.length, before = (pieces.take count).flatten := by
    subst split
    exact Program.boundary_of_accepted only accepted done
  refine ⟨pieces, cut, only, cut.counted accepted, ?boundary, ?children, ?kept, ?inside⟩
  case boundary =>
    intro before rest closing split closes
    constructor
    · rintro ⟨known, done⟩
      exact reaches before rest closing known split done
    · rintro ⟨count, bounded, rfl⟩
      exact ⟨_, cut.accepted_first closes accepted bounded⟩
  case children =>
    intro count bounded closing closes
    exact cut.accepted_first closes accepted bounded
  case kept =>
    intro before rest closing known split done
    obtain ⟨count, bounded, rfl⟩ := reaches before rest closing known split done
    rw [cut.accepted_first (Closed.of_accepted done).1 accepted bounded] at done
    cases done
    exact ⟨module.children.drop count, (List.take_append_drop ..).symm⟩
  case inside =>
    intro count piece part more here split started unfinished closing known done
    have whole : tokens =
        (pieces.take count).flatten ++ part ++ (more ++ (pieces.drop (count + 1)).flatten) := by
      rw [← cut.together]
      conv_lhs => rw [← List.take_append_drop count pieces]
      rw [List.drop_eq_getElem?_toList_append, here]
      simp [split]
    obtain ⟨other, _, same⟩ := reaches _ _ closing known whole done
    exact Program.not_boundary here split started unfinished other same

theorem sample_grows : ∃ read finish pieces,
    tokenize Program.sample = .ok (read ++ [finish]) ∧
      parse (read ++ [finish]) = .ok Program.sampleTree ∧
      pieces.length = 2 ∧ Program.Grows read Program.sampleTree pieces := by
  obtain ⟨tokens, read, parsed⟩ := Program.sample_accepted
  obtain ⟨unread, finish, _, _, _, rfl, _⟩ := parse_reads parsed
  obtain ⟨pieces, grows⟩ := parse_grows parsed
  exact ⟨unread, finish, pieces, read, parsed, grows.counted.symm, grows⟩

end ScalarC
