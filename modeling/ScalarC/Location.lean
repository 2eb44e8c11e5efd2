/-!
Places in a source text. Lines and columns count from one, columns in code
points; only a line feed starts a new line.
-/

namespace ScalarC

structure Location where
  line : Nat
  column : Nat
  deriving DecidableEq

namespace Location

def start : Location := ⟨1, 1⟩

def after (place : Location) (c : Char) : Location :=
  if c = '\n' then ⟨place.line + 1, 1⟩ else ⟨place.line, place.column + 1⟩

def afterAll (place : Location) (text : List Char) : Location :=
  text.foldl after place

def describe (place : Location) : String :=
  s!"line {place.line}, column {place.column}"

@[simp] theorem afterAll_nil (place : Location) : place.afterAll [] = place := rfl

@[simp] theorem afterAll_cons (place : Location) (c : Char) (text : List Char) :
    place.afterAll (c :: text) = (place.after c).afterAll text := rfl

theorem afterAll_append (place : Location) (first second : List Char) :
    place.afterAll (first ++ second) = (place.afterAll first).afterAll second :=
  List.foldl_append

end Location

end ScalarC
