/-!
The four value types of the machine. Two types agree only when they are equal:
there is no promotion, a conversion is written as a cast.
-/

namespace ScalarC

inductive DataType where
  | i32
  | i64
  | f32
  | f64
  deriving DecidableEq

namespace DataType

def name : DataType → String
  | i32 => "i32"
  | i64 => "i64"
  | f32 => "f32"
  | f64 => "f64"

def ofWord? (word : String) : Option DataType :=
  if word = "int" then some i32
  else if word = "long" then some i64
  else if word = "float" then some f32
  else if word = "double" then some f64
  else none

def isInteger : DataType → Bool
  | i32 | i64 => true
  | f32 | f64 => false

def isFloat (type : DataType) : Bool := !type.isInteger

/-- The type of a literal that nothing around it decides. -/
def literalDefault : DataType := i32

/-- What a place without a type is called: only a call of a `void` function has none. -/
def describe : Option DataType → String
  | some type => type.name
  | none => "void"

theorem name_injective (first second : DataType) (same : first.name = second.name) :
    first = second := by
  cases first <;> cases second <;> simp_all [name]

end DataType

end ScalarC
