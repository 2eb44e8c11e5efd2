import ScalarC.Proofs.Cursor.Parsers
import ScalarC.Proofs.Phrase.Soundness

/-!
Progress. An expression that is read has a token at least, and every statement
and every declaration ends with a mark or has one inside, which is read on the
way; so none of them succeeds without going forward, in whatever state it starts.
-/

namespace ScalarC

open Parse

namespace Parse

variable {α β : Type}

def Advances (parser : Parse α) : Prop :=
  ∀ state value after, outcome parser state = .ok (value, after) →
    after.unread.length < state.unread.length

namespace Advances

theorem bind {first : Parse α} {next : α → Parse β} (advances : Advances first)
    (built : ∀ value, Built (next value)) : Advances (first >>= next) := by
  intro state value after done
  simp only [outcome_bind, bind_eq_ok, Prod.exists] at done
  obtain ⟨given, middle, ran, done⟩ := done
  have short := advances _ _ _ ran
  have further := (built given).unread_le done
  omega

theorem behind {first : Parse α} {next : α → Parse β} (built : Built first)
    (advances : ∀ value, Advances (next value)) : Advances (first >>= next) := by
  intro state value after done
  simp only [outcome_bind, bind_eq_ok, Prod.exists] at done
  obtain ⟨given, middle, ran, done⟩ := done
  have short := built.unread_le ran
  have further := advances _ _ _ _ done
  omega

theorem ite {choice : Prop} [Decidable choice] {first second : Parse α} (holds : Advances first)
    (fails : Advances second) : Advances (if choice then first else second) := by
  split
  · exact holds
  · exact fails

theorem raise (error : ParseError) : Advances (Parse.raise error : Parse α) := by
  intro state value after done
  simp at done

theorem fail (fault : GrammarFault) : Advances (Parse.fail fault : Parse α) := by
  intro state value after done
  simp at done

end Advances

theorem advances_expect {lexeme : Lexeme} (real : lexeme.kind ≠ .endOfInput) (context : String) :
    Advances (Parse.expect lexeme context) := by
  intro state value after done
  obtain ⟨token, _, reads⟩ := expect_reads real done
  simp [reads.unread]

theorem advances_expectPunctuation (mark context : String) :
    Advances (Parse.expectPunctuation mark context) :=
  advances_expect (by simp) context

end Parse

theorem Expression.operand_advances : Advances Expression.operand := by
  intro state found after done
  obtain ⟨tokens, phrase, reads, derives, _⟩ := Phrase.operand_spells _ _ _ done
  have some : 0 < tokens.length := by
    obtain ⟨others, begins⟩ := derives.start.1
    simp [begins]
  rw [reads.unread, List.length_append]
  omega

namespace Statement

theorem advances_condition (before after : String) : Advances (condition before after) := by
  apply (advances_expectPunctuation _ _).bind
  intro _
  apply (Built.steps.ofType .i32 _).bind
  intro test
  exact (Built.steps.expectPunctuation _ _).bind fun _ => Built.steps.pure test

theorem advances_localDeclaration : Advances localDeclaration := by
  apply Advances.behind Built.steps.declaredType
  intro type
  apply Advances.behind Built.steps.expectIdentifier
  intro name
  apply Advances.behind (Built.steps.sees _)
  intro isFunction
  apply Advances.ite (.fail _)
  apply Advances.behind (Built.steps.accept _)
  intro initialized
  apply Advances.behind (Built.steps.onlyIf initialized (Built.steps.ofType type _))
  intro value
  apply (advances_expectPunctuation _ _).bind
  intro _
  exact (Built.declare _).bind fun _ => Built.steps.pure _

theorem advances_returns (place : Location) : Advances (returns place) := by
  apply Advances.behind Built.steps.enclosing
  intro function?
  cases function? with
  | none => exact .raise _
  | some function =>
      apply Advances.behind (Built.steps.returnValue function place)
      intro value
      exact (advances_expectPunctuation _ _).bind fun _ => Built.steps.pure _

theorem advances_jump (tag : Tag) (word : Token) : Advances (jump tag word) := by
  apply Advances.behind Built.steps.loopDepth
  intro depth
  apply Advances.ite (.raise _)
  exact (advances_expectPunctuation _ _).bind fun _ => Built.steps.pure _

theorem advances_expression : Advances expression := by
  apply Expression.operand_advances.bind
  intro operand
  apply (Built.ofExcept _).bind
  intro node
  apply (Built.steps.expectPunctuation _ _).bind
  intro _
  exact ite_made (Built.steps.pure _) (Built.steps.pure _)

section Inner

variable {statement : Parse Node} (inner : Built statement)
include inner

theorem advances_block : Advances (block statement) := by
  have braced (context : String) : Advances (braced statement context) := by
    apply Advances.behind Built.steps.unreadCount
    intro bound
    apply Advances.behind (Built.steps.sequence inner bound)
    intro statements
    exact (advances_expectPunctuation _ _).bind fun _ => Built.steps.pure _
  exact (braced _).bind fun _ => Built.steps.pure _

theorem advances_branches : Advances (branches statement) := by
  apply (advances_condition _ _).bind
  intro test
  apply (Built.steps.body inner).bind
  intro chosen
  apply (Built.steps.accept _).bind
  intro hasAlternative
  exact (Built.steps.onlyIf hasAlternative (Built.steps.body inner)).bind fun alternative =>
    Built.steps.pure _

theorem advances_repeatsWhile : Advances (repeatsWhile statement) := by
  apply (advances_condition _ _).bind
  intro test
  exact (Built.inLoop (Built.steps.body inner)).bind fun repeated => Built.steps.pure _

theorem advances_repeatsDo : Advances (repeatsDo statement) := by
  apply Advances.behind (Built.inLoop (Built.steps.body inner))
  intro repeated
  apply (advances_expect (by simp) _).bind
  intro _
  apply (Built.steps.condition _ _).bind
  intro test
  exact (Built.steps.expectPunctuation _ _).bind fun _ => Built.steps.pure _

theorem advances_keyword (text : String) : Advances (keyword statement text) := by
  unfold keyword
  cases StatementWord.ofText? text with
  | none => exact .ite (.fail _) advances_localDeclaration
  | some word =>
      cases word with
      | alternative | repeatsFor => exact .fail _
      | returns => exact .behind .advance fun token => advances_returns token.location
      | branches => exact .behind .advance fun token => advances_branches inner
      | repeatsWhile => exact .behind .advance fun token => advances_repeatsWhile inner
      | repeatsDo => exact .behind .advance fun token => advances_repeatsDo inner
      | breaks | continues => exact .behind .advance fun token => advances_jump _ token

theorem advances_plain : Advances (plain statement) := by
  apply Advances.behind (Built.steps.accept _)
  intro isBlock
  apply Advances.ite (advances_block inner)
  apply Advances.behind Built.steps.peek
  intro token
  apply Advances.behind Built.steps.seesIdentifierAhead
  intro named
  exact .ite advances_localDeclaration advances_expression

end Inner

theorem statementWithin_advances (bound : Nat) : Advances (statementWithin bound) := by
  cases bound with
  | zero => exact .behind Built.steps.peek fun token => .fail _
  | succ bound =>
      have inner := Built.steps.statementWithin bound
      exact .behind Built.steps.peek fun token =>
        .ite (advances_keyword inner token.text) (advances_plain inner)

theorem statement_advances : Advances statement :=
  .behind Built.steps.unreadCount statementWithin_advances

end Statement

namespace Declaration

theorem advances_global : Advances Declaration.global := by
  apply Advances.behind (Built.steps.accept _)
  intro constant
  apply Advances.behind Built.steps.declaredType
  intro type
  apply Advances.behind Built.steps.expectIdentifier
  intro name
  apply Advances.behind (Built.steps.sees _)
  intro isFunction
  apply Advances.ite (.fail _)
  apply Advances.behind (Built.declare _)
  intro _
  apply Advances.behind (Built.steps.globalValue name type constant)
  intro value
  exact (advances_expectPunctuation _ _).bind fun _ => Built.steps.pure _

theorem advances_function : Advances function := by
  apply Advances.behind Built.steps.returnType
  intro type
  apply Advances.behind Built.steps.expectIdentifier
  intro name
  apply (advances_expectPunctuation _ _).bind
  intro _
  apply Built.enterFunction.bind
  intro _
  apply Built.parameters.bind
  intro given
  apply (Built.steps.expectPunctuation _ _).bind
  intro _
  apply (Built.declareFunction name _).bind
  intro _
  apply (Built.functionBody _).bind
  intro statements
  exact Built.exitFunction.bind fun _ => Built.steps.pure _

theorem declaration_advances : Advances declaration := by
  apply Advances.behind Built.steps.peek
  intro token
  apply Advances.behind (Built.steps.seesAhead 2 _)
  intro isFunction
  apply Advances.ite (.fail _)
  apply Advances.ite advances_global
  exact .ite advances_function advances_global

end Declaration

end ScalarC
