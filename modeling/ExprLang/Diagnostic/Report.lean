import ExprLang.Diagnostic
import ExprLang.Unicode.Class

/-!
# Reports

A report shows a diagnostic with the line it is blamed on:

    error: unexpected ')' on line 20
    syntax error: UnexpectedToken
    -> final.ex
       |
    20 | var b = (a));
       |

Lines end with a line feed, with or without a carriage return before it, and are counted from 1
(`lineText?`). A report on a line that the text does not have leaves out its last three lines.
-/

namespace ExprLang

/-- The lines of a text, each with its line feed if it has one. -/
def linesWithEnds (text : List Char) : List (List Char) := text.splitBy fun c _ => c != '\n'

/-- A line without the line feed at its end and the carriage return before that. -/
def withoutEnd (line : List Char) : List Char :=
  if line.getLast? = some '\n' then
    let body := line.dropLast
    if body.getLast? = some '\r' then body.dropLast else body
  else line

/-- The text of a line, counted from 1, without its end. -/
def lineText? (text : String) (line : UInt32) : Option String :=
  if line = 0 then none
  else ((linesWithEnds text.toList)[line.toNat - 1]?).map fun l => String.ofList (withoutEnd l)

/-- A text with blanks before it, as wide as the column it stands in. -/
def padLeft (width : Nat) (text : String) : String :=
  String.ofList (List.replicate (width - text.length) ' ') ++ text

namespace Diagnostic

/-- The first lines of a report: message, category with name and tip, file. -/
def heading (d : Diagnostic) (file : String) : List String :=
  let label := s!"{d.cause.category.label}: {d.cause.name}"
  [s!"error: {d.message}",
    match d.cause.tip? with
    | some tip => s!"{label} ({tip})"
    | none => label,
    s!"-> {file}"]

/-- The last lines of a report: the line blamed between two empty ones. -/
def excerpt (d : Diagnostic) (source : String) : List String :=
  match lineText? source d.line with
  | some text =>
    let number := toString d.line
    let gutter := padLeft (number.length + 2) "|"
    [gutter, s!"{number} | {Unicode.trim text}", gutter]
  | none => []

/-- The report of a diagnostic against the text of a file. -/
def report (d : Diagnostic) (file source : String) : String :=
  String.join ((d.heading file ++ d.excerpt source).map (· ++ "\n"))

end Diagnostic

end ExprLang
