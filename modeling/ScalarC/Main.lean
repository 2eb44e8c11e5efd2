import ScalarC.CommandLine

/-!
The program: reads the file that the arguments name, prints the outcome and
leaves with its exit code.
-/

open ScalarC ScalarC.CommandLine

def readFailure : IO.Error → ReadFailure
  | .noFileOrDirectory .. => .missing
  | .inappropriateType _ 20 _ => .notDirectory
  | .inappropriateType .. => .isDirectory
  | .permissionDenied .. => .denied
  | .invalidArgument _ 36 _ => .nameTooLong
  | error => .other error.toString

def readContent (file : String) : IO (Except ReadFailure ByteArray) := do
  try
    let handle ← IO.FS.Handle.mk file .read
    return .ok (← handle.readBinToEnd)
  catch error =>
    return .error (readFailure error)

def main (arguments : List String) : IO UInt32 := do
  let asked := invocation arguments
  let content ← match asked with
    | .run options => readContent options.file
    | .help | .misuse => pure (.error .missing)
  let result := outcome asked content
  (← IO.getStdout).putStr result.output
  (← IO.getStderr).putStr result.errors
  return result.exitCode.toUInt32
