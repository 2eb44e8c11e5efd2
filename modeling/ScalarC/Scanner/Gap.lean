import ScalarC.Scanner.Basic

/-!
What may stand between two lexemes: blanks, line comments and block comments.
Block comments do not nest. The scanner stops at the first character of the
next lexeme; a block comment left open is a fault at the place where it opens.
-/

namespace ScalarC.Scanner

def isBlank (c : Char) : Bool :=
  c = ' ' || c = '\t' || c = '\r' || c = '\n'

/-- The part of a gap a scanner stands in. -/
inductive Gap where
  | blank
  | lineComment
  | blockComment (opened : Location)

def skipFrom (here : Location) : Gap → List Char → Except LexError Unit × Scanner
  | .blank, '/' :: '/' :: rest =>
      skipFrom ((here.after '/').after '/') .lineComment rest
  | .blank, '/' :: '*' :: rest =>
      skipFrom ((here.after '/').after '*') (.blockComment here) rest
  | .blank, c :: rest =>
      if isBlank c then skipFrom (here.after c) .blank rest else (.ok (), ⟨c :: rest, here⟩)
  | .lineComment, c :: rest =>
      skipFrom (here.after c) (if c = '\n' then .blank else .lineComment) rest
  | .blockComment _, '*' :: '/' :: rest =>
      skipFrom ((here.after '*').after '/') .blank rest
  | .blockComment opened, c :: rest =>
      skipFrom (here.after c) (.blockComment opened) rest
  | .blockComment opened, [] => (.error ⟨.openComment, opened⟩, ⟨[], here⟩)
  | .blank, [] | .lineComment, [] => (.ok (), ⟨[], here⟩)

def skip (scanner : Scanner) : Except LexError Unit × Scanner :=
  skipFrom scanner.location .blank scanner.rest

theorem skipFrom_suffix (here : Location) (gap : Gap) (text : List Char) :
    (skipFrom here gap text).2.rest <:+ text := by
  fun_induction skipFrom here gap text with
  | case1 _ _ ih | case2 _ _ ih | case6 _ _ _ ih =>
      exact ih.trans ((List.suffix_cons _ _).trans (List.suffix_cons _ _))
  | case3 _ _ _ _ _ _ ih | case5 _ _ _ ih | case7 _ _ _ _ _ ih =>
      exact ih.trans (List.suffix_cons _ _)
  | case4 | case8 | case9 | case10 => exact List.suffix_rfl

theorem skip_suffix (scanner : Scanner) : (skip scanner).2.rest <:+ scanner.rest :=
  skipFrom_suffix _ _ _

end ScalarC.Scanner
