import Mathlib.Data.Nat.Init
import ScalarC.Proofs.Spelling.Faults

/-!
A scanner called again and again. What it has read of the source is a prefix,
its place is the end of that prefix, and each call answers as a fresh scanner
of the rest would, with the places moved behind the prefix. A character no
lexeme starts with stops it for good, and so does the end of the source.
-/

namespace ScalarC

namespace Location

/-- A place in a part of a source as a place in the whole, if the part begins at `start`. Only in
its first line columns count from there. -/
def shift (start place : Location) : Location :=
  if place.line = 1 then ⟨start.line, start.column + place.column - 1⟩
  else ⟨start.line + place.line - 1, place.column⟩

/-- Lines and columns count from one. -/
def Counted (place : Location) : Prop := 0 < place.line ∧ 0 < place.column

theorem counted_start : start.Counted := ⟨Nat.one_pos, Nat.one_pos⟩

theorem Counted.after {place : Location} (counted : place.Counted) (c : Char) :
    (place.after c).Counted := by
  unfold Location.after
  split
  · exact ⟨Nat.succ_pos _, Nat.one_pos⟩
  · exact ⟨counted.1, Nat.succ_pos _⟩

theorem Counted.afterAll {place : Location} (counted : place.Counted) (text : List Char) :
    (place.afterAll text).Counted := by
  induction text generalizing place with
  | nil => exact counted
  | cons c text ih => exact ih (counted.after c)

theorem shift_start (start : Location) : start.shift Location.start = start := by
  simp [shift, Location.start]

theorem shift_after {place : Location} (counted : place.Counted) (start : Location) (c : Char) :
    (start.shift place).after c = start.shift (place.after c) := by
  obtain ⟨line, column⟩ := place
  obtain ⟨lines, columns⟩ := counted
  simp only at lines columns
  by_cases feed : c = '\n'
  · have later : line + 1 ≠ 1 := by omega
    by_cases first : line = 1
    · simp [shift, after, feed, first]
    · have same : start.line + line - 1 + 1 = start.line + (line + 1) - 1 := by omega
      simp only [shift, after, feed, first, later, ↓reduceIte, same]
  · by_cases first : line = 1
    · have same : start.column + column - 1 + 1 = start.column + (column + 1) - 1 := by omega
      simp only [shift, after, feed, first, ↓reduceIte, same]
    · simp only [shift, after, feed, first, ↓reduceIte]

theorem shift_afterAll {place : Location} (counted : place.Counted) (start : Location)
    (text : List Char) : (start.shift place).afterAll text = start.shift (place.afterAll text) := by
  induction text generalizing place with
  | nil => rfl
  | cons c text ih => rw [afterAll_cons, shift_after counted, ih (counted.after c), afterAll_cons]

end Location

def Token.shift (start : Location) (token : Token) : Token :=
  { token with location := start.shift token.location }

def LexError.shift (start : Location) (error : LexError) : LexError :=
  ⟨error.fault, start.shift error.location⟩

def shiftAnswer (start : Location) :
    Except LexError (List Token) → Except LexError (List Token)
  | .error error => .error (error.shift start)
  | .ok tokens => .ok (tokens.map (Token.shift start))

namespace Scanner

def shift (start : Location) (scanner : Scanner) : Scanner :=
  { scanner with location := start.shift scanner.location }

def Gap.shift (start : Location) : Gap → Gap
  | .blank => .blank
  | .lineComment => .lineComment
  | .blockComment opened => .blockComment (start.shift opened)

theorem skipFrom_shift (start : Location) {here : Location} (counted : here.Counted) (gap : Gap)
    (text : List Char) :
    skipFrom (start.shift here) (gap.shift start) text =
      ((skipFrom here gap text).1.mapError (LexError.shift start),
        (skipFrom here gap text).2.shift start) := by
  fun_induction skipFrom here gap text with
  | case1 here text ih =>
      rw [← ih ((counted.after _).after _), ← Location.shift_after (counted.after _),
        ← Location.shift_after counted]
      rfl
  | case2 here text ih =>
      rw [← ih ((counted.after _).after _), ← Location.shift_after (counted.after _),
        ← Location.shift_after counted]
      rfl
  | case3 here c text noLine noBlock isBlank ih =>
      rw [← ih (counted.after c), ← Location.shift_after counted, Gap.shift,
        skipFrom.eq_3 _ _ _ noLine noBlock, if_pos isBlank]
  | case4 here c text noLine noBlock notBlank =>
      rw [Gap.shift, skipFrom.eq_3 _ _ _ noLine noBlock, if_neg notBlank]
      rfl
  | case5 here c text ih =>
      rw [← ih (counted.after c), ← Location.shift_after counted, Gap.shift, skipFrom]
      split <;> rfl
  | case6 here opened text ih =>
      rw [← ih ((counted.after _).after _), ← Location.shift_after (counted.after _),
        ← Location.shift_after counted]
      rfl
  | case7 here opened c text notClosed ih =>
      rw [← ih (counted.after c), ← Location.shift_after counted, Gap.shift,
        skipFrom.eq_6 _ _ _ _ notClosed]
  | case8 | case9 | case10 => rfl

theorem tokens_shift (start : Location) (scanner : Scanner) (counted : scanner.location.Counted) :
    (scanner.shift start).tokens =
      (shiftAnswer start scanner.tokens.1, scanner.tokens.2.shift start) := by
  have skipped (scanner : Scanner) (counted : scanner.location.Counted) :
      skip (scanner.shift start) =
        ((skip scanner).1.mapError (LexError.shift start), (skip scanner).2.shift start) :=
    skipFrom_shift start counted .blank scanner.rest
  fun_induction tokens scanner with
  | case1 scanner error stopped gap =>
      have moved := skipped scanner counted
      rw [gap] at moved
      exact tokens_of_break moved
  | case2 scanner here gap =>
      have moved := skipped scanner counted
      rw [gap] at moved
      exact tokens_of_end moved
  | case3 scanner c rest here gap next fault found =>
      have moved := skipped scanner counted
      obtain ⟨_, _, rfl, _⟩ := skip_splits gap
      rw [gap] at moved
      rw [tokens_of_fault moved found, Location.shift_afterAll (counted.afterAll _)]
      rfl
  | case4 scanner c rest here gap next kind found _ others stopped split ih =>
      have moved := skipped scanner counted
      obtain ⟨blanks, _, rfl, _⟩ := skip_splits gap
      have whole : lexeme c rest = ⟨.ok kind, (lexeme c rest).taken, (lexeme c rest).rest⟩ := by
        rw [← found]
      have place := counted.afterAll blanks
      rw [gap] at moved
      have again := ih (place.afterAll _)
      rw [tokens_of_lexeme moved whole, Location.shift_afterAll place]
      change (Except.map _ (next.shift start).tokens.1, (next.shift start).tokens.2) = _
      rw [again, split]
      cases others with
      | error error => rfl
      | ok others => rfl

/-! What one call reads. -/

theorem skipFrom_leaves (here : Location) (gap : Gap) (text : List Char) :
    ∃ skipped, text = skipped ++ (skipFrom here gap text).2.rest ∧
      (skipFrom here gap text).2.location = here.afterAll skipped := by
  fun_induction skipFrom here gap text with
  | case1 here text ih =>
      obtain ⟨skipped, same, stop⟩ := ih
      exact ⟨'/' :: '/' :: skipped, by rw [List.cons_append, List.cons_append, ← same], stop⟩
  | case2 here text ih =>
      obtain ⟨skipped, same, stop⟩ := ih
      exact ⟨'/' :: '*' :: skipped, by rw [List.cons_append, List.cons_append, ← same], stop⟩
  | case6 here opened text ih =>
      obtain ⟨skipped, same, stop⟩ := ih
      exact ⟨'*' :: '/' :: skipped, by rw [List.cons_append, List.cons_append, ← same], stop⟩
  | case3 here c text _ _ _ ih | case5 here c text ih | case7 here _ c text _ ih =>
      obtain ⟨skipped, same, stop⟩ := ih
      exact ⟨c :: skipped, by rw [List.cons_append, ← same], stop⟩
  | case4 | case8 | case9 | case10 => exact ⟨[], rfl, rfl⟩

theorem tokens_leaves (scanner : Scanner) :
    ∃ read, scanner.rest = read ++ scanner.tokens.2.rest ∧
      scanner.tokens.2.location = scanner.location.afterAll read := by
  fun_induction tokens scanner with
  | case1 scanner error stopped gap =>
      have left := skipFrom_leaves scanner.location .blank scanner.rest
      rwa [← skip, gap] at left
  | case2 scanner here gap =>
      obtain ⟨skipped, same, stop, _⟩ := skip_splits gap
      exact ⟨skipped, same, stop⟩
  | case3 scanner c rest here gap next fault found =>
      obtain ⟨skipped, same, stop, _⟩ := skip_splits gap
      refine ⟨skipped ++ (lexeme c rest).taken, ?_, ?_⟩
      · rw [same, ← lexeme_append c rest, List.append_assoc]
      · rw [Location.afterAll_append, ← stop]
  | case4 scanner c rest here gap next kind found _ others stopped split ih =>
      obtain ⟨skipped, same, stop, _⟩ := skip_splits gap
      obtain ⟨read, left, place⟩ := ih
      rw [split] at left place
      refine ⟨skipped ++ (lexeme c rest).taken ++ read, ?_, ?_⟩
      · rw [same, ← lexeme_append c rest, List.append_assoc, List.append_assoc, ← left]
      · rw [Location.afterAll_append, Location.afterAll_append, ← stop, place]

theorem tokens_ok_rest (scanner : Scanner) :
    ∀ read, scanner.tokens.1 = .ok read → scanner.tokens.2.rest = [] := by
  fun_induction tokens scanner with
  | case1 | case3 =>
      intro read done
      cases done
  | case2 => exact fun _ _ => rfl
  | case4 scanner c rest here gap next kind found _ others stopped split ih =>
      intro read done
      rw [split] at ih
      cases others with
      | error error => cases done
      | ok others => exact ih others rfl

theorem tokens_at_end {scanner : Scanner} (finished : scanner.rest = []) :
    scanner.tokens = (.ok [⟨Lexeme.endOfInput, scanner.location⟩], scanner) := by
  obtain ⟨rest, here⟩ := scanner
  obtain rfl : rest = [] := finished
  exact tokens_of_end rfl

theorem tokens_stray (scanner : Scanner) :
    ∀ c place, scanner.tokens.1 = .error ⟨.strayCharacter c, place⟩ →
      scanner.tokens.2.tokens = scanner.tokens := by
  fun_induction tokens scanner with
  | case1 scanner error stopped gap =>
      intro c place stray
      cases stray
      have broken : (skip scanner).1 = .error ⟨.strayCharacter c, place⟩ := congrArg Prod.fst gap
      rcases skipFrom_breaks broken with ⟨_, _, _, _, _, other⟩ | ⟨_, _, _, other⟩ <;> cases other
  | case2 =>
      intro c place stray
      cases stray
  | case3 scanner c rest here gap next fault found =>
      rintro _ _ ⟨rfl⟩
      obtain ⟨_, _, _, _, starts⟩ := skip_splits gap
      have opens := lexeme_breaks (starts c rest rfl).1 found
      cases opens with
      | strayCharacter stray =>
          have read := (none_of_isStray stray).2
          have same : next = ⟨c :: rest, here⟩ := by
            simp only [next, read, Location.afterAll_nil]
          have again : skip next = (.ok (), ⟨c :: rest, here⟩) := by
            rw [same]
            exact skipFrom_starts starts here
          rw [tokens_of_fault again found]
  | case4 scanner c rest here gap next kind found _ others stopped split ih =>
      intro d place stray
      rw [split] at ih
      cases others with
      | ok others => cases stray
      | error error =>
          cases stray
          exact ih d place rfl

/-- The scanner a number of calls later. -/
def afterCalls (scanner : Scanner) : Nat → Scanner
  | 0 => scanner
  | calls + 1 => (scanner.afterCalls calls).tokens.2

end Scanner

/-- What holds of a scanner of `source` that is called again and again, if it has read `read calls`
after that many calls. -/
structure Resumes (source : String) (read : Nat → List Char) : Prop where
  splits (calls : Nat) :
    source.toList = read calls ++ ((Scanner.ofString source).afterCalls calls).rest
  stands (calls : Nat) :
    ((Scanner.ofString source).afterCalls calls).location = Location.behind (read calls)
  grows (calls : Nat) : read calls <+: read (calls + 1)
  answers (calls : Nat) : ((Scanner.ofString source).afterCalls calls).tokens.1 =
    shiftAnswer (Location.behind (read calls))
      (tokenize (String.ofList ((Scanner.ofString source).afterCalls calls).rest))
  /-- A stray character is never passed. -/
  sticks (calls : Nat) (c : Char) (place : Location) :
    ((Scanner.ofString source).afterCalls calls).tokens.1 = .error ⟨.strayCharacter c, place⟩ →
    ∀ later, calls ≤ later → ((Scanner.ofString source).afterCalls later).tokens.1 =
      .error ⟨.strayCharacter c, place⟩
  /-- Behind the first success there is only the end of the source. -/
  finishes (calls : Nat) (tokens : List Token) :
    ((Scanner.ofString source).afterCalls calls).tokens.1 = .ok tokens →
    ∀ later, calls < later → ((Scanner.ofString source).afterCalls later).tokens.1 =
      .ok [⟨Lexeme.endOfInput, Location.behind source.toList⟩]

namespace Scanner

theorem afterCalls_splits (source : String) (calls : Nat) :
    ∃ read, source.toList = read ++ ((ofString source).afterCalls calls).rest ∧
      ((ofString source).afterCalls calls).location = Location.behind read := by
  induction calls with
  | zero => exact ⟨[], rfl, rfl⟩
  | succ calls ih =>
      obtain ⟨read, same, place⟩ := ih
      obtain ⟨more, left, stop⟩ := tokens_leaves ((ofString source).afterCalls calls)
      refine ⟨read ++ more, ?_, ?_⟩
      · rw [same, left, List.append_assoc]
        rfl
      · rw [afterCalls, stop, place, Location.afterAll_behind]

theorem afterCalls_stray {scanner : Scanner} {calls : Nat} {c : Char} {place : Location}
    (stray : (scanner.afterCalls calls).tokens.1 = .error ⟨.strayCharacter c, place⟩)
    (later : Nat) (behind : calls ≤ later) :
    (scanner.afterCalls later).tokens.1 = .error ⟨.strayCharacter c, place⟩ := by
  induction later, behind using Nat.le_induction with
  | base => exact stray
  | succ later _ ih =>
      rw [afterCalls, tokens_stray _ c place ih]
      exact ih

theorem afterCalls_finished {scanner : Scanner} {calls : Nat} {read : List Token}
    (done : (scanner.afterCalls calls).tokens.1 = .ok read) (later : Nat) (behind : calls < later) :
    (scanner.afterCalls later).rest = [] := by
  induction later, behind using Nat.le_induction with
  | base => exact tokens_ok_rest _ read done
  | succ later _ ih =>
      rw [afterCalls, tokens_at_end ih]
      exact ih

/-- A call answers as the scanner of the rest does, with the places moved. -/
theorem tokens_resume {scanner : Scanner} {read : List Char}
    (place : scanner.location = Location.behind read) :
    scanner.tokens.1 =
      shiftAnswer (Location.behind read) (tokenize (String.ofList scanner.rest)) := by
  have moved := tokens_shift (Location.behind read) (ofString (String.ofList scanner.rest))
    Location.counted_start
  have same : (ofString (String.ofList scanner.rest)).shift (Location.behind read) = scanner := by
    simp only [shift, ofString, String.toList_ofList, Location.shift_start, ← place]
  rw [same] at moved
  rw [moved, tokenize]

end Scanner

/-- However often a scanner is called, it stands behind a prefix of its source that grows, answers
as a fresh one would for the rest, and never passes a stray character or the end. -/
theorem tokens_resumes (source : String) : ∃ read, Resumes source read := by
  choose read splits stands using Scanner.afterCalls_splits source
  have isPrefix (calls : Nat) : read calls <+: source.toList := ⟨_, (splits calls).symm⟩
  refine ⟨read, splits, stands, ?_, fun calls => Scanner.tokens_resume (stands calls),
    fun _ _ _ stray => Scanner.afterCalls_stray stray, ?_⟩
  · intro calls
    obtain ⟨more, left, _⟩ := Scanner.tokens_leaves ((Scanner.ofString source).afterCalls calls)
    refine List.prefix_of_prefix_length_le (isPrefix calls) (isPrefix (calls + 1)) ?_
    have shorter := congrArg List.length left
    have first := congrArg List.length (splits calls)
    have second := congrArg List.length (splits (calls + 1))
    simp only [List.length_append, Scanner.afterCalls] at shorter first second
    omega
  · intro calls tokens done later behind
    have finished := Scanner.afterCalls_finished done later behind
    have whole := splits later
    rw [finished, List.append_nil] at whole
    rw [Scanner.tokens_at_end finished, stands, whole]

-- The first call stops inside a number, the second at a stray character, and so does the third.
example : (List.range 3).map (fun calls => ((Scanner.ofString "1a @").afterCalls calls).tokens.1) =
    [.error ⟨.numberRunsOn "1" 'a', ⟨1, 1⟩⟩, .error ⟨.strayCharacter '@', ⟨1, 4⟩⟩,
      .error ⟨.strayCharacter '@', ⟨1, 4⟩⟩] := by
  decide +kernel

end ScalarC
