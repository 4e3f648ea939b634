import ExprLang.CommandLine

/-!
# The program

Opens the file that the arguments name, prints what the run printed, and ends with its code.
-/

open ExprLang

/-- The reason why a file operation failed: the operating system's text and number of it. -/
def reasonOf : IO.Error → String
  | .noFileOrDirectory _ code details | .interrupted _ code details
  | .alreadyExists _ code details | .invalidArgument _ code details
  | .permissionDenied _ code details | .resourceExhausted _ code details
  | .inappropriateType _ code details | .noSuchThing _ code details
  | .otherError code details | .resourceBusy code details | .resourceVanished code details
  | .unsupportedOperation code details | .hardwareFault code details
  | .unsatisfiedConstraints code details | .illegalOperation code details
  | .protocolError code details | .timeExpired code details => s!"{details} (os error {code})"
  | .unexpectedEof => "unexpected end of file"
  | .userError text => text

/-- The bytes of an open file. One that can be opened and not read is a source that fails at
once. -/
def readSource (handle : IO.FS.Handle) : IO Source := do
  try
    return .ofBytes (← handle.readBinToEnd).toList
  catch e =>
    return [.fault (reasonOf e)]

/-- The source in a file, or the reason why the file cannot be opened. -/
def openSource (file : String) : IO (Except String Source) := do
  try
    return .ok (← readSource (← IO.FS.Handle.mk file .read))
  catch e =>
    return .error (reasonOf e)

/-- Runs the command line. -/
def main (arguments : List String) : IO UInt32 := do
  let outcome ← CommandLine.answer openSource (CommandLine.readArguments arguments)
  IO.print outcome.output
  IO.eprint outcome.errors
  return outcome.code.toUInt32
