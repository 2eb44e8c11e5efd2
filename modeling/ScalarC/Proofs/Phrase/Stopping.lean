import ScalarC.Proofs.Cursor.Bounds
import ScalarC.Proofs.Phrase.Completeness

/-!
Where expressions stop. What is left behind an expression does not begin with a
binary operator of any level, since the loop over the level would have read it: its
bound covers the tokens left.
-/

namespace ScalarC

open Parse

/-- A token that is no binary operator of the levels. -/
def Token.JoinsNothing (token : Token) (levels : List (List BinaryOperator)) : Prop :=
  ∀ level ∈ levels, ∀ operator ∈ level, token.toLexeme ≠ .operator operator.symbol

namespace Expression

/-- A parser that leaves no operator of the levels to be read next. -/
def Exhausts {α : Type} (parser : Parse α) (levels : List (List BinaryOperator)) : Prop :=
  ∀ state found after, outcome parser state = .ok (found, after) → after.next.JoinsNothing levels

variable {parser : Parse Operand}

theorem chain_exhausts (built : Built parser) {level : List BinaryOperator}
    {tighter : List (List BinaryOperator)} (inner : Exhausts parser tighter) {bound : Nat}
    {left found : Operand} {state after : State} (enough : state.unread.length ≤ bound)
    (apart : state.next.JoinsNothing tighter)
    (done : outcome (chain level parser bound left) state = .ok (found, after)) :
    after.next.JoinsNothing (level :: tighter) := by
  -- Each turn reads the operator at least, so the bound lasts until none comes next.
  induction bound generalizing left state with
  | zero =>
      cases done
      have nothing := List.length_eq_zero_iff.mp (Nat.le_zero.mp enough)
      exact fun _ _ operator _ => State.next_not_operator nothing operator.symbol
  | succ bound ih =>
      simp only [chain, outcome_bind, outcome_peek, ok_bind] at done
      split at done
      · rename_i none
        cases done
        refine List.forall_mem_cons.mpr ⟨fun operator member => ?_, apart⟩
        simpa using List.find?_eq_none.mp none operator member
      · rename_i operator isOperator
        have isMark := (Phrase.ofLexeme?_eq_some isOperator).2
        simp only [outcome_bind, outcome_ofExcept, bind_assoc, ok_bind, bind_eq_ok,
          Prod.exists] at done
        obtain ⟨_, middle, advanced, right, behind, ran, joined, _, done⟩ := done
        obtain ⟨rfl, read⟩ := advance_reads (by simp [isMark]) advanced
        have fewer := congrArg List.length read.unread
        have kept := built.unread_le ran
        simp only [List.length_append, List.length_cons, List.length_nil] at fewer
        exact ih (by omega) (inner _ _ _ ran) done

theorem levels_exhaust (built : Built parser) (table : List (List BinaryOperator)) :
    Exhausts (levels parser table) table := by
  induction table with
  | nil => exact fun _ _ _ _ level member => absurd member (List.not_mem_nil)
  | cons level tighter ih =>
      intro state found after done
      simp only [levels, outcome_bind, outcome_unreadCount, ok_bind, bind_eq_ok,
        Prod.exists] at done
      obtain ⟨left, middle, first, done⟩ := done
      have inner := Built.steps.levels built tighter
      exact chain_exhausts inner ih (Nat.le_refl _) (ih _ _ _ first) done

theorem storedValue_exhausts {table : List (List BinaryOperator)} (inner : Exhausts parser table)
    (form : Assignment) (target : Variable) (place : Location) :
    Exhausts (storedValue parser form target place) table := by
  intro state node after done
  cases form with
  | plain =>
      simp only [storedValue, typed, outcome_bind, outcome_peek, outcome_ofExcept, outcome_pure,
        ok_bind, bind_assoc, bind_eq_ok, Except.ok.injEq, Prod.mk.injEq, Prod.exists] at done
      obtain ⟨found, _, ran, _, _, _, _, _, rfl⟩ := done
      exact inner _ _ _ ran
  | compound operator =>
      simp only [storedValue, compoundValue, outcome_bind, outcome_peek, outcome_ofExcept,
        outcome_pure, ok_bind, bind_assoc, bind_eq_ok, Except.ok.injEq, Prod.mk.injEq,
        Prod.exists] at done
      obtain ⟨found, _, ran, _, _, _, _, _, _, _, rfl⟩ := done
      exact inner _ _ _ ran

theorem assignment_exhausts {table : List (List BinaryOperator)} (inner : Exhausts parser table)
    (form : Assignment) : Exhausts (assignment parser form) table := by
  intro state found after done
  simp only [assignment, outcome_bind, outcome_scope, ok_bind, outcome_ofExcept, bind_assoc,
    bind_eq_ok, Prod.exists, outcome_ite, outcome_raise, outcome_pure] at done
  obtain ⟨_, _, _, _, _, _, target, _, done⟩ := done
  split at done
  · cases done
  · simp only [bind_eq_ok, Prod.exists, Except.ok.injEq, Prod.mk.injEq] at done
    obtain ⟨node, _, ran, _, rfl⟩ := done
    exact storedValue_exhausts inner form target _ _ _ _ ran

theorem operandWithin_exhausts (bound : Nat) :
    Exhausts (operandWithin bound) BinaryOperator.levels := by
  induction bound with
  | zero =>
      intro state found after done
      simp [operandWithin] at done
  | succ bound ih =>
      intro state found after done
      simp only [operandWithin, outcome_bind, bind_eq_ok, Prod.exists] at done
      obtain ⟨form?, middle, _, done⟩ := done
      cases form? with
      | some form => exact assignment_exhausts ih form _ _ _ done
      | none => exact levels_exhaust (Built.steps.operandWithin bound) _ _ _ _ done

/-- No binary operator comes next behind an expression. -/
theorem operand_exhausts : Exhausts operand BinaryOperator.levels := by
  intro state found after done
  simp only [operand, outcome_bind, outcome_unreadCount, ok_bind] at done
  exact operandWithin_exhausts _ _ _ _ done

end Expression

end ScalarC
