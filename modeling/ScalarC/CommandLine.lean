import ScalarC.FileTree
import ScalarC.Node.Json
import ScalarC.Node.Outline
import ScalarC.Parsing.Program

/-!
The command line as a function: what the arguments ask for, and what is printed
once the file has been read. One file is named; `--json` asks for JSON instead
of an outline, and at most once; `-v` and `--verbose` are accepted any number of
times. Behind `--` every argument names a file.
-/

namespace ScalarC.CommandLine

structure Options where
  file : String
  json : Bool
  deriving DecidableEq

inductive Invocation where
  | run (options : Options)
  | help
  | misuse
  deriving DecidableEq

/-- What has been seen of the arguments; `ended` once `--` has been. -/
structure Seen where
  file : Option String
  json : Bool
  ended : Bool

/-- The flags behind one dash: any number of `v`, unless `h` comes first. -/
def shortFlags : List Char → Option Invocation
  | [] => none
  | 'v' :: rest => shortFlags rest
  | 'h' :: _ => some .help
  | _ => some .misuse

def isOption (argument : String) : Bool :=
  "-".toList.isPrefixOf argument.toList && argument ≠ "-"

def scan (seen : Seen) : List String → Invocation
  | [] =>
      match seen.file with
      | some file => .run ⟨file, seen.json⟩
      | none => .misuse
  | argument :: rest =>
      if seen.ended || !isOption argument then
        if seen.file.isSome || argument.isEmpty then .misuse
        else scan { seen with file := some argument } rest
      else if argument = "--" then scan { seen with ended := true } rest
      else if argument = "--json" then
        if seen.json then .misuse else scan { seen with json := true } rest
      else if argument = "--verbose" then scan seen rest
      else if argument = "--help" then .help
      else match shortFlags (argument.toList.drop 1) with
        | some settled => settled
        | none => scan seen rest

def invocation (arguments : List String) : Invocation := scan ⟨none, false, false⟩ arguments

structure Outcome where
  exitCode : Nat
  output : String
  errors : String
  deriving DecidableEq

def success (output : String) : Outcome := ⟨0, output, ""⟩

def failure (message : String) : Outcome := ⟨1, "", "Error: " ++ message ++ "\n"⟩

def decodeText (content : Except ReadFailure ByteArray) : Except ReadFailure String := do
  match String.fromUTF8? (← content) with
  | some text => .ok text
  | none => .error .notText

def render (json : Bool) (tree : Node) : String :=
  if json then tree.toJson.pretty ++ "\n" else tree.outline

def report (options : Options) (content : Except ReadFailure ByteArray) : Outcome :=
  match decodeText content with
  | .error cause =>
      failure ("failed to read '" ++ options.file ++ "': " ++ cause.reason)
  | .ok source =>
      match Program.ofSource source with
      | .ok tree => success (render options.json tree)
      | .error error => failure error.message

def usage : String :=
  "Usage: scalarc [--json] [--verbose] FILE\n\n" ++
    "Prints the typed tree of a source file as an outline, or as JSON with --json.\n"

def outcome (invocation : Invocation) (content : Except ReadFailure ByteArray) : Outcome :=
  match invocation with
  | .run options => report options content
  | .help => success usage
  | .misuse => ⟨2, "", usage⟩

/-- The outcome of a run in the directory with the components `working`. -/
def respond (files : FileTree) (working arguments : List String) : Outcome :=
  let asked := invocation arguments
  match asked with
  | .run options => outcome asked (files.read working options.file)
  | .help | .misuse => outcome asked (.error .missing)

end ScalarC.CommandLine
