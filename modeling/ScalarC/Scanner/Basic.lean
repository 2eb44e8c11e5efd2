import ScalarC.Lexeme

/-!
A scanner is the unread part of a source text and the place where it starts.
A `Reading` is one lexeme's worth of text taken off it, whether it is a lexeme
or not: after a fault the scanner stands behind what was taken.
-/

namespace ScalarC

inductive LexFault where
  | openComment
  | hexWithoutDigits (text : String)
  | exponentWithoutDigits (text : String)
  | numberRunsOn (text : String) (next : Char)
  | strayCharacter (c : Char)
  deriving DecidableEq

def LexFault.message : LexFault → String
  | .openComment => "Unterminated block comment"
  | .hexWithoutDigits text => "Invalid hex literal: " ++ text
  | .exponentWithoutDigits text => "Missing exponent digits in literal: " ++ text
  | .numberRunsOn text next => "Invalid number literal: " ++ text.push next
  | .strayCharacter c => "Unexpected character: '" ++ c.toString ++ "'"

structure LexError where
  fault : LexFault
  location : Location
  deriving DecidableEq

def LexError.message (error : LexError) : String :=
  "Lexer error at " ++ error.location.describe ++ ": " ++ error.fault.message

structure Scanner where
  rest : List Char
  location : Location
  deriving DecidableEq

def Scanner.ofString (source : String) : Scanner := ⟨source.toList, Location.start⟩

structure Reading where
  result : Except LexFault TokenKind
  taken : List Char
  rest : List Char

end ScalarC
