import ExprLang.Diagnostic
import ExprLang.Token

/-!
# Journals

A journal records what a front-end run did, event by event. `Event.message` is the line that a log
shows for an event: its level and its text.
-/

namespace ExprLang

/-- How much detail an event carries. -/
inductive Level where
  | info
  | debug
  | trace
  deriving DecidableEq

/-- The level as a log prints it. -/
def Level.label : Level → String
  | info => "INFO"
  | debug => "DEBUG"
  | trace => "TRACE"

/-- Something a front-end run did or found. -/
inductive Event where
  /-- A token was read from the source. -/
  | scanned (token : Token)
  /-- A run began, with this limit on nesting. -/
  | began (maxDepth : Nat)
  /-- Another token stood where this kind was expected. -/
  | expected (kind : Kind) (line : UInt32) (cause : Cause)
  /-- The nesting limit was passed. -/
  | tooDeep (limit : Nat) (line : UInt32)
  /-- An expression grew taller than the nesting limit. -/
  | tooTall (limit : Nat) (line : UInt32)
  /-- A declaration was read up to its initializer. -/
  | declaring (keyword name : String) (line : UInt32)
  /-- A block was opened. -/
  | entering (line : UInt32)
  /-- A block was closed; it had declared so many symbols. -/
  | leaving (line : UInt32) (symbols : Nat)
  /-- The typing table has no entry for an operator before an operand. -/
  | noUnary (operator operand : String)
  /-- The typing table has no entry for an operator between operands. -/
  | noBinary (operator left right : String)
  /-- A unit failed, which ended the run. -/
  | stopped (failure : Failure)
  /-- A run came to the end of the source. -/
  | finished (units symbols : Nat)
  deriving DecidableEq

namespace Event

/-- The level of an event. -/
def level : Event → Level
  | scanned _ => .trace
  | began _ | finished .. => .info
  | _ => .debug

/-- What an event says. -/
def text : Event → String
  | scanned token => s!"{token.label} on line {token.line}"
  | began maxDepth => s!"creating parser with max depth {maxDepth}"
  | expected kind line cause => s!"expected {kind.name} on line {line}: {cause.description}"
  | tooDeep limit line => s!"nesting depth {limit} exceeded on line {line}"
  | tooTall limit line => s!"expression height {limit} exceeded on line {line}"
  | declaring keyword name line => s!"declaring {keyword} '{name}' on line {line}"
  | entering line => s!"entering block on line {line}"
  | leaving line symbols => s!"leaving block opened on line {line} with {symbols} symbols"
  | noUnary operator operand => s!"no unary entry for '{operator}' on {operand}"
  | noBinary operator left right => s!"no binary entry for '{operator}' on {left} and {right}"
  | stopped failure => s!"parsing stopped: {failure.message}"
  | finished units symbols => s!"parsed {units} top-level units, {symbols} global symbols"

/-- The line of a log that shows an event. -/
def message (e : Event) : String := s!"{e.level.label} {e.text}"

end Event

/-- The events of a run, the latest first. -/
abbrev Journal := List Event

/-- The lines of the log, in the order of the events. -/
def Journal.messages (journal : Journal) : List String := journal.reverse.map Event.message

end ExprLang
