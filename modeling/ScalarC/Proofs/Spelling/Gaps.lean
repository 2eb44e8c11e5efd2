import ScalarC.Proofs.Spelling.Grammar

/-!
The scanner skips exactly the gaps: what it skips is one, and it skips every one
that something other than a gap follows.
-/

namespace ScalarC.Scanner

/-- Where a lexeme begins or the source ends, but no blank and no comment. -/
def StartsNoGap (text : List Char) : Prop :=
  ∀ c others, text = c :: others →
    isBlank c = false ∧ (c = '/' → ∀ d ∈ others.head?, d ≠ '/' ∧ d ≠ '*')

theorem startsNoGap_nil : StartsNoGap [] := nofun

/-- What is still to come of a gap, seen from inside it. -/
def Gap.Remains (last : Prop) : Gap → List Char → Prop
  | .blank, gap => IsGap last gap
  | .lineComment, gap =>
      (∃ body others, gap = body ++ '\n' :: others ∧ '\n' ∉ body ∧ IsGap last others) ∨
        last ∧ '\n' ∉ gap
  | .blockComment _, gap =>
      ∃ body others, gap = body ++ '*' :: '/' :: others ∧ ¬ ['*', '/'] <:+: body ∧
        IsGap last others

theorem skipFrom_splits {here stop : Location} {gap : Gap} {text rest : List Char}
    (done : skipFrom here gap text = (.ok (), ⟨rest, stop⟩)) :
    ∃ skipped, text = skipped ++ rest ∧ stop = here.afterAll skipped ∧
      gap.Remains (rest = []) skipped ∧ StartsNoGap rest := by
  fun_induction skipFrom here gap text with
  | case1 here text ih =>
      obtain ⟨skipped, rfl, rfl, remains, starts⟩ := ih done
      refine ⟨'/' :: '/' :: skipped, rfl, rfl, ?_, starts⟩
      rcases remains with ⟨body, others, rfl, noFeed, isGap⟩ | ⟨last, noFeed⟩
      · exact .lineComment noFeed isGap
      · exact .openComment last noFeed
  | case2 here text ih =>
      obtain ⟨skipped, rfl, rfl, ⟨body, others, rfl, closed, isGap⟩, starts⟩ := ih done
      exact ⟨'/' :: '*' :: (body ++ '*' :: '/' :: others), rfl, rfl, .blockComment closed isGap,
        starts⟩
  | case3 here c text _ _ isBlank ih =>
      obtain ⟨skipped, rfl, rfl, remains, starts⟩ := ih done
      exact ⟨c :: skipped, rfl, rfl, .blank isBlank remains, starts⟩
  | case4 here c text noLine noBlock notBlank =>
      cases done
      refine ⟨[], rfl, rfl, .nil, ?_⟩
      rintro _ _ ⟨rfl, rfl⟩
      refine ⟨by simpa using notBlank, ?_⟩
      rintro rfl d head
      obtain ⟨others, rfl⟩ := List.head?_eq_some_iff.mp head
      constructor
      · rintro rfl
        exact noLine others rfl rfl
      · rintro rfl
        exact noBlock others rfl rfl
  | case5 here c text ih =>
      obtain ⟨skipped, rfl, rfl, remains, starts⟩ := ih done
      refine ⟨c :: skipped, rfl, rfl, ?_, starts⟩
      by_cases feed : c = '\n'
      · subst feed
        exact .inl ⟨[], skipped, rfl, by simp, remains⟩
      · rw [if_neg feed] at remains
        rcases remains with ⟨body, others, rfl, noFeed, isGap⟩ | ⟨last, noFeed⟩
        · exact .inl ⟨c :: body, others, rfl, by simp [noFeed, Ne.symm feed], isGap⟩
        · exact .inr ⟨last, by simp [noFeed, Ne.symm feed]⟩
  | case6 here opened text ih =>
      obtain ⟨skipped, rfl, rfl, isGap, starts⟩ := ih done
      exact ⟨'*' :: '/' :: skipped, rfl, rfl, ⟨[], skipped, rfl, by simp, isGap⟩, starts⟩
  | case7 here opened c text notClosed ih =>
      obtain ⟨skipped, rfl, rfl, ⟨body, others, rfl, closed, isGap⟩, starts⟩ := ih done
      refine ⟨c :: (body ++ '*' :: '/' :: others), rfl, rfl,
        ⟨c :: body, others, rfl, ?_, isGap⟩, starts⟩
      rw [List.infix_cons_iff]
      rintro (⟨rest, same⟩ | inside)
      · obtain ⟨rfl, rfl⟩ := List.cons.inj same
        exact notClosed _ rfl rfl
      · exact closed inside
  | case8 => cases done
  | case9 =>
      cases done
      exact ⟨[], rfl, rfl, .nil, startsNoGap_nil⟩
  | case10 =>
      cases done
      exact ⟨[], rfl, rfl, .inr ⟨rfl, by simp⟩, startsNoGap_nil⟩

theorem skip_splits {scanner : Scanner} {rest : List Char} {here : Location}
    (done : skip scanner = (.ok (), ⟨rest, here⟩)) :
    ∃ gap, scanner.rest = gap ++ rest ∧ here = scanner.location.afterAll gap ∧
      IsGap (rest = []) gap ∧ StartsNoGap rest :=
  skipFrom_splits done

/-! The ways through a comment. -/

attribute [local simp] skipFrom

theorem skipFrom_lineComment {body : List Char} (noFeed : '\n' ∉ body) (here : Location)
    (text : List Char) :
    skipFrom here .lineComment (body ++ '\n' :: text) =
      skipFrom (here.afterAll (body ++ ['\n'])) .blank text := by
  induction body generalizing here with
  | nil => simp
  | cons c body ih =>
      rw [List.mem_cons, not_or] at noFeed
      simp [Ne.symm noFeed.1, ih noFeed.2]

theorem skipFrom_openComment {body : List Char} (noFeed : '\n' ∉ body) (here : Location) :
    skipFrom here .lineComment body = (.ok (), ⟨[], here.afterAll body⟩) := by
  induction body generalizing here with
  | nil => simp
  | cons c body ih =>
      rw [List.mem_cons, not_or] at noFeed
      simp [Ne.symm noFeed.1, ih noFeed.2]

theorem skipFrom_blockComment {body : List Char} (closed : ¬ ['*', '/'] <:+: body)
    (here opened : Location) (text : List Char) :
    skipFrom here (.blockComment opened) (body ++ '*' :: '/' :: text) =
      skipFrom (here.afterAll (body ++ ['*', '/'])) .blank text := by
  induction body generalizing here with
  | nil => simp
  | cons c body ih =>
      rw [List.infix_cons_iff, not_or] at closed
      have notClosed (rest : List Char) (star : c = '*') :
          body ++ '*' :: '/' :: text ≠ '/' :: rest := by
        intro same
        cases body with
        | nil => simp at same
        | cons d body =>
            obtain ⟨rfl, _⟩ := List.cons.inj same
            exact closed.1 ⟨body, by simp [star]⟩
      rw [List.cons_append, skipFrom]
      · simpa using ih closed.2 (here.after c)
      · exact notClosed

theorem skipFrom_starts {text : List Char} (starts : StartsNoGap text) (here : Location) :
    skipFrom here .blank text = (.ok (), ⟨text, here⟩) := by
  cases text with
  | nil => rfl
  | cons c others =>
      obtain ⟨notBlank, noComment⟩ := starts c others rfl
      rw [skipFrom]
      · simp [notBlank]
      · rintro rest rfl rfl
        exact (noComment rfl '/' rfl).1 rfl
      · rintro rest rfl rfl
        exact (noComment rfl '*' rfl).2 rfl

/-- Behind a gap that is closed the scanner goes on as if it began there. -/
theorem skipFrom_past {gap : List Char} (isGap : IsGap False gap) (here : Location)
    (rest : List Char) :
    skipFrom here .blank (gap ++ rest) = skipFrom (here.afterAll gap) .blank rest := by
  induction isGap generalizing here with
  | nil => rfl
  | @blank c gap isBlank _ ih =>
      have noSlash : c ≠ '/' := by
        rintro rfl
        revert isBlank
        decide
      rw [List.cons_append, skipFrom]
      · simpa [isBlank] using ih (here.after c)
      · intro _ slash
        exact absurd slash noSlash
      · intro _ slash
        exact absurd slash noSlash
  | @lineComment body gap noFeed _ ih =>
      have skipped := skipFrom_lineComment noFeed ((here.after '/').after '/') (gap ++ rest)
      simp [skipped, ih, Location.afterAll_append]
  | @blockComment body gap closed _ ih =>
      have skipped :=
        skipFrom_blockComment closed ((here.after '/').after '*') here (gap ++ rest)
      simp [skipped, ih, Location.afterAll_append]
  | openComment atEnd => exact atEnd.elim

/-- A gap is closed, or it ends in a line comment behind one that is. -/
theorem IsGap.closed_or_open {last : Prop} {gap : List Char} (isGap : IsGap last gap) :
    IsGap False gap ∨ last ∧ ∃ lead body, gap = lead ++ '/' :: '/' :: body ∧
      IsGap False lead ∧ '\n' ∉ body := by
  induction isGap with
  | nil => exact .inl .nil
  | @blank c gap isBlank _ ih =>
      rcases ih with closed | ⟨final, lead, body, rfl, closed, noFeed⟩
      · exact .inl (.blank isBlank closed)
      · exact .inr ⟨final, c :: lead, body, rfl, .blank isBlank closed, noFeed⟩
  | lineComment noFeed _ ih =>
      rcases ih with closed | ⟨final, lead, body, rfl, closed, openFeed⟩
      · exact .inl (.lineComment noFeed closed)
      · exact .inr ⟨final, _, body, by simp, .lineComment noFeed closed, openFeed⟩
  | blockComment unmarked _ ih =>
      rcases ih with closed | ⟨final, lead, body, rfl, closed, noFeed⟩
      · exact .inl (.blockComment unmarked closed)
      · exact .inr ⟨final, _, body, by simp, .blockComment unmarked closed, noFeed⟩
  | openComment final noFeed => exact .inr ⟨final, [], _, rfl, .nil, noFeed⟩

theorem skipFrom_gap {last : Prop} {gap rest : List Char} (isGap : IsGap last gap)
    (final : last → rest = []) (starts : StartsNoGap rest) (here : Location) :
    skipFrom here .blank (gap ++ rest) = (.ok (), ⟨rest, here.afterAll gap⟩) := by
  rcases isGap.closed_or_open with closed | ⟨atEnd, lead, body, rfl, closed, noFeed⟩
  · rw [skipFrom_past closed, skipFrom_starts starts]
  · obtain rfl := final atEnd
    rw [List.append_nil, skipFrom_past closed, skipFrom, skipFrom_openComment noFeed,
      Location.afterAll_append]
    rfl

theorem skip_gap {last : Prop} {scanner : Scanner} {gap rest : List Char}
    (text : scanner.rest = gap ++ rest) (isGap : IsGap last gap) (final : last → rest = [])
    (starts : StartsNoGap rest) :
    skip scanner = (.ok (), ⟨rest, scanner.location.afterAll gap⟩) := by
  rw [skip, text]
  exact skipFrom_gap isGap final starts scanner.location

end ScalarC.Scanner
