import ExprLang.CommandLine
import ExprLang.DataType
import ExprLang.Diagnostic
import ExprLang.Diagnostic.Report
import ExprLang.Grammar.Expression
import ExprLang.Grammar.Program
import ExprLang.Grammar.State
import ExprLang.Grammar.Statement
import ExprLang.Journal
import ExprLang.Json
import ExprLang.Main
import ExprLang.Progress
import ExprLang.Proofs.Blame.Expressions
import ExprLang.Proofs.Blame.Faults
import ExprLang.Proofs.Blame.Lexical
import ExprLang.Proofs.Blame.Lines
import ExprLang.Proofs.Blame.Programs
import ExprLang.Proofs.Blame.Seen
import ExprLang.Proofs.Blame.Undetermined
import ExprLang.Proofs.Compose.Composed
import ExprLang.Proofs.Compose.Effect
import ExprLang.Proofs.Compose.Heedless
import ExprLang.Proofs.Compose.Rounds
import ExprLang.Proofs.Compose.Seam
import ExprLang.Proofs.Compose.Steady
import ExprLang.Proofs.Earliest.Detected
import ExprLang.Proofs.Earliest.Programs
import ExprLang.Proofs.Earliest.Stalls
import ExprLang.Proofs.Language.Accepts
import ExprLang.Proofs.Language.Derivation
import ExprLang.Proofs.Language.Expressions
import ExprLang.Proofs.Language.Kinds
import ExprLang.Proofs.Language.Programs
import ExprLang.Proofs.Language.Sound
import ExprLang.Proofs.Language.Unambiguous
import ExprLang.Proofs.Layout.Lexed
import ExprLang.Proofs.Layout.Respaced
import ExprLang.Proofs.Layout.Written
import ExprLang.Proofs.Lexing.AnySource
import ExprLang.Proofs.Lexing.Delimiters
import ExprLang.Proofs.Lexing.Gives
import ExprLang.Proofs.Lexing.LineText
import ExprLang.Proofs.Lexing.Lines
import ExprLang.Proofs.Lexing.Munch
import ExprLang.Proofs.Lexing.Numbers
import ExprLang.Proofs.Lexing.Origin
import ExprLang.Proofs.Lexing.Partition
import ExprLang.Proofs.Lexing.Placed
import ExprLang.Proofs.Lexing.Scans
import ExprLang.Proofs.Lexing.Yields
import ExprLang.Proofs.Nesting.Balance
import ExprLang.Proofs.Nesting.Enter
import ExprLang.Proofs.Nesting.Height
import ExprLang.Proofs.Nesting.Levels
import ExprLang.Proofs.Nesting.Limit
import ExprLang.Proofs.Nesting.Room
import ExprLang.Proofs.Nesting.Tracked
import ExprLang.Proofs.Nesting.Trail
import ExprLang.Proofs.Nesting.Units
import ExprLang.Proofs.Parallel.Expressions
import ExprLang.Proofs.Parallel.Limits
import ExprLang.Proofs.Parallel.Programs
import ExprLang.Proofs.Parallel.Runs
import ExprLang.Proofs.Parallel.Tokens
import ExprLang.Proofs.Parse.Advance
import ExprLang.Proofs.Parse.Delivers
import ExprLang.Proofs.Parse.Exact
import ExprLang.Proofs.Parse.Failing
import ExprLang.Proofs.Parse.Finished
import ExprLang.Proofs.Parse.Passage
import ExprLang.Proofs.Parse.Phrase
import ExprLang.Proofs.Parse.Progress
import ExprLang.Proofs.Parse.Resolved
import ExprLang.Proofs.Parse.Runs
import ExprLang.Proofs.Parse.Turns
import ExprLang.Proofs.Precedence.Bracketing
import ExprLang.Proofs.Precedence.Climb
import ExprLang.Proofs.Precedence.Complete
import ExprLang.Proofs.Precedence.Operands
import ExprLang.Proofs.Precedence.Skeleton
import ExprLang.Proofs.Printing.Formed
import ExprLang.Proofs.Printing.Lexed
import ExprLang.Proofs.Printing.Print
import ExprLang.Proofs.Printing.RoundTrip
import ExprLang.Proofs.Printing.WellFormed
import ExprLang.Proofs.Reading.InStep
import ExprLang.Proofs.Reading.Loss
import ExprLang.Proofs.Reading.Machine
import ExprLang.Proofs.Reading.Recovery
import ExprLang.Proofs.Reading.Tape
import ExprLang.Proofs.Replay.Rules
import ExprLang.Proofs.Replay.Steps
import ExprLang.Proofs.Scoping.Begins
import ExprLang.Proofs.Scoping.History
import ExprLang.Proofs.Scoping.Sound
import ExprLang.Proofs.Scoping.View
import ExprLang.Proofs.Stream.Attempts
import ExprLang.Proofs.Stream.Calls
import ExprLang.Proofs.Stream.Lexeme
import ExprLang.Proofs.Stream.Passes
import ExprLang.Proofs.Stream.Upcoming
import ExprLang.Proofs.Tree.Alike
import ExprLang.Proofs.Tree.Height
import ExprLang.Proofs.Tree.Recursion
import ExprLang.Proofs.Tree.Roots
import ExprLang.Proofs.Tree.Shift
import ExprLang.Proofs.Typing.Bare
import ExprLang.Proofs.Typing.Category
import ExprLang.Proofs.Typing.InOrder
import ExprLang.Proofs.Typing.Last
import ExprLang.Proofs.Typing.Sound
import ExprLang.Scope
import ExprLang.Source
import ExprLang.Source.Cursor
import ExprLang.Table
import ExprLang.Token
import ExprLang.Token.Scanner
import ExprLang.Token.Stream
import ExprLang.Tree
import ExprLang.Tree.Json
import ExprLang.Typing.Check
import ExprLang.Typing.Table
import ExprLang.Unicode.Alphabetic
import ExprLang.Unicode.Class
import ExprLang.Unicode.Numeric
import ExprLang.Vocabulary
import ExprLang.Vocabulary.Standard
