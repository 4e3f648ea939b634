import ExprLang.Diagnostic.Report
import ExprLang.Grammar.Program
import ExprLang.Tree.Json
import ExprLang.Vocabulary.Standard

/-!
# The command line

    exprc [--max-depth N] [--compact] [--tokens] FILE

parses a file and prints the typed tree as JSON, or prints its tokens. `readArguments` says what a
list of arguments asks for, and `execute` what a run on an opened file prints and ends with. Both
are pure: opening files and printing is left to the caller.
-/

namespace ExprLang.CommandLine

/-- What a run is to do. -/
structure Options where
  file : String
  maxDepth : Nat
  /-- Print the tree on one line. -/
  compact : Bool
  /-- Print the tokens instead of the tree. -/
  tokens : Bool
  deriving DecidableEq

/-- What the arguments ask for. -/
inductive Request where
  | run (options : Options)
  | version
  | help
  /-- The arguments make no sense together. -/
  | misuse
  deriving DecidableEq

/-- What a run prints and the code it ends with. -/
structure Outcome where
  code : Nat
  output : String
  errors : String
  deriving DecidableEq

/-! ## Arguments -/

/-- What has been read of the arguments. -/
structure Given where
  file : Option String
  maxDepth : Option Nat
  compact : Bool
  tokens : Bool

/-- Nothing read yet. -/
def Given.nothing : Given := ⟨none, none, false, false⟩

/-- The request at the end of the arguments. A file has to be named. -/
def Given.request (given : Given) : Request :=
  match given.file with
  | some file =>
    .run ⟨file, given.maxDepth.getD Grammar.defaultMaxDepth, given.compact, given.tokens⟩
  | none => .misuse

/-- The largest number accepted as an argument. -/
def largestNumber : Nat := UInt64.size - 1

/-- The value of decimal digits; none if there is no digit, or something else among them. -/
def digitsValue? (digits : List Char) : Option Nat :=
  if digits.isEmpty || !digits.all Char.isDigit then none
  else some (digits.foldl (fun n c => 10 * n + (c.toNat - '0'.toNat)) 0)

/-- The value of a number as an argument: digits with an optional plus sign. -/
def number? (text : String) : Option Nat :=
  let digits := match text.toList with
    | '+' :: rest => rest
    | all => all
  (digitsValue? digits).filter (· ≤ largestNumber)

/-- The name of an option and the value behind its equals sign, if it has one. -/
def splitOption (text : List Char) : String × Option String :=
  let name := String.ofList (text.takeWhile (· != '='))
  match text.dropWhile (· != '=') with
  | _ :: value => (name, some (String.ofList value))
  | [] => (name, none)

/-- Adds the file; a second one or an empty name is refused. -/
def Given.addFile (given : Given) (name : String) : Option Given :=
  if given.file.isSome || name.isEmpty then none else some { given with file := some name }

/-- Adds the nesting limit; a second one or one that is no number is refused. -/
def Given.addDepth (given : Given) (value : String) : Option Given :=
  if given.maxDepth.isSome then none
  else (number? value).map fun n => { given with maxDepth := some n }

/-- What arguments ask for of which none is read as an option. -/
def readFiles (given : Given) : List String → Request
  | [] => given.request
  | name :: rest =>
    match given.addFile name with
    | some given => readFiles given rest
    | none => .misuse

/-- What arguments ask for, given those read before. Asking for the version or for help takes
effect at once; behind `--` nothing is an option. -/
def readFrom (given : Given) : List String → Request
  | [] => given.request
  | arg :: rest =>
    match arg.toList with
    | '-' :: '-' :: [] => readFiles given rest
    | '-' :: '-' :: option =>
      match splitOption option with
      | ("max-depth", some value) =>
        match given.addDepth value with
        | some given => readFrom given rest
        | none => .misuse
      | ("max-depth", none) =>
        match rest with
        | value :: rest =>
          match given.addDepth value with
          | some given => readFrom given rest
          | none => .misuse
        | [] => .misuse
      | ("compact", none) =>
        if given.compact then .misuse else readFrom { given with compact := true } rest
      | ("tokens", none) =>
        if given.tokens then .misuse else readFrom { given with tokens := true } rest
      | ("version", none) => .version
      | ("help", none) => .help
      | _ => .misuse
    | '-' :: 'V' :: _ => .version
    | '-' :: 'h' :: _ => .help
    | '-' :: _ :: _ => .misuse
    | _ =>
      match given.addFile arg with
      | some given => readFrom given rest
      | none => .misuse

/-- What a list of arguments asks for. -/
def readArguments (arguments : List String) : Request := readFrom .nothing arguments

/-! ## Runs -/

/-- The text of all bytes of a source, if they can be read and are UTF-8. -/
def wholeText? (s : Source) : Option String :=
  if s.all (·.byte?.isSome) then String.fromUTF8? (s.filterMap Delivery.byte?).toByteArray
  else none

/-- A run that failed by something outside the program. -/
def brokenOff (attempt file reason : String) : Outcome :=
  ⟨1, "", s!"Error: failed to {attempt} {file}\n\nCaused by:\n    {reason}\n"⟩

/-- A run that failed: a report against the file, or the reason why it could not be read. -/
def failed (file : String) (s : Source) : Failure → Outcome
  | .refused d => ⟨1, "", d.report file ((wholeText? s).getD "")⟩
  | .unreadable reason => brokenOff "read" file reason

/-- The tokens of a file, one a line. -/
def printTokens (file : String) (s : Source) : Outcome :=
  match TokenStream.tokenize .standard (.ofSource s) with
  | .ok tokens _ => ⟨0, String.join (tokens.map fun t => t.listing ++ "\n"), ""⟩
  | .error e _ => failed file s e

/-- The tree of a file. -/
def printTree (options : Options) (s : Source) : Outcome :=
  match (Grammar.standard .standard .standard options.maxDepth).parse s with
  | .ok units =>
    let json := Json.array (Tree.toJsonAll units)
    ⟨0, (if options.compact then json.compact else json.pretty) ++ "\n", ""⟩
  | .error e => failed options.file s e

/-- A run on a file that could be opened, or not with the reason given. -/
def execute (options : Options) (opened : Except String Source) : Outcome :=
  match opened with
  | .ok s => if options.tokens then printTokens options.file s else printTree options s
  | .error reason => brokenOff "open" options.file reason

/-- How the program is called. -/
def usage : String := "Usage: exprc [OPTIONS] <FILE>\n"

/-- What asking for help prints. -/
def helpText : String :=
  "Parses and type checks a source file, printing the typed tree as JSON\n\n" ++ usage ++ "
Arguments:
  <FILE>  Input source file

Options:
      --max-depth <MAX_DEPTH>  Deepest allowed nesting of operators, parentheses and blocks [default: 256]
      --compact                Print JSON on a single line
      --tokens                 Print the token stream instead of the tree
  -h, --help                   Print help
  -V, --version                Print version
"

/-- What a request prints and ends with; `openFile` gives the file that a run asks for. -/
def answer {m : Type → Type} [Monad m] (openFile : String → m (Except String Source)) :
    Request → m Outcome
  | .run options => return execute options (← openFile options.file)
  | .version => return ⟨0, "exprc 0.1.0\n", ""⟩
  | .help => return ⟨0, helpText, ""⟩
  | .misuse => return ⟨2, "", "error: the arguments cannot be used\n\n" ++ usage⟩

end ExprLang.CommandLine
