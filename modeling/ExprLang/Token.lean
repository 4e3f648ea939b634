/-!
# Tokens

A token is a classified lexeme with the line on which it starts. Two tokens are the same
(`Token.same`) when kind and lexeme agree; the line only says where a token stood.
-/

namespace ExprLang

/-- The kinds of tokens. `eof` marks the end of the source. -/
inductive Kind where
  | eof
  | identifier
  | boolLiteral
  | intLiteral
  | floatLiteral
  | typeName
  | varDecl
  | constDecl
  | plus
  | dash
  | star
  | slash
  | percent
  | pow
  | tilde
  | ampersand
  | pipe
  | not
  | and
  | or
  | greater
  | less
  | equals
  | notEquals
  | greaterEquals
  | lessEquals
  | openParen
  | closeParen
  | openCurly
  | closeCurly
  | colon
  | semicolon
  | dot
  | assignment
  | unknown
  deriving DecidableEq, Inhabited

namespace Kind

/-- Every kind, in the order of declaration. -/
def all : List Kind :=
  [eof, identifier, boolLiteral, intLiteral, floatLiteral, typeName, varDecl, constDecl, plus,
    dash, star, slash, percent, pow, tilde, ampersand, pipe, not, and, or, greater, less, equals,
    notEquals, greaterEquals, lessEquals, openParen, closeParen, openCurly, closeCurly, colon,
    semicolon, dot, assignment, unknown]

/-- The name under which a kind is printed. -/
def name : Kind → String
  | eof => "EOF"
  | identifier => "Identifier"
  | boolLiteral => "BoolLiteral"
  | intLiteral => "IntLiteral"
  | floatLiteral => "FloatLiteral"
  | typeName => "TypeName"
  | varDecl => "VarDecl"
  | constDecl => "ConstDecl"
  | plus => "Plus"
  | dash => "Dash"
  | star => "Star"
  | slash => "Slash"
  | percent => "Percent"
  | pow => "Pow"
  | tilde => "Tilde"
  | ampersand => "Ampersand"
  | pipe => "Pipe"
  | not => "Not"
  | and => "And"
  | or => "Or"
  | greater => "Greater"
  | less => "Less"
  | equals => "Equals"
  | notEquals => "NotEquals"
  | greaterEquals => "GreaterEquals"
  | lessEquals => "LessEquals"
  | openParen => "OpenParen"
  | closeParen => "CloseParen"
  | openCurly => "OpenCurly"
  | closeCurly => "CloseCurly"
  | colon => "Colon"
  | semicolon => "Semicolon"
  | dot => "Dot"
  | assignment => "Assignment"
  | unknown => "Unknown"

/-- The kind of a name. -/
def ofName? (name : String) : Option Kind := all.find? fun k => k.name == name

theorem ofName?_name (k : Kind) : ofName? k.name = some k := by cases k <;> decide

/-- The kinds whose lexeme says more than the kind does. -/
def carriesLexeme : Kind → Bool
  | identifier | typeName | boolLiteral | intLiteral | floatLiteral => true
  | _ => false

end Kind

/-- A classified lexeme and the line it starts on. -/
structure Token where
  kind : Kind
  value : String
  line : UInt32
  deriving DecidableEq, Inhabited

namespace Token

/-- Whether two tokens agree in kind and lexeme, wherever they stood. -/
def same (a b : Token) : Bool := a.kind == b.kind && a.value == b.value

theorem same_iff {a b : Token} : a.same b = true ↔ a.kind = b.kind ∧ a.value = b.value := by
  simp [same]

/-- The token as messages quote it. -/
def label (t : Token) : String := s!"{t.kind.name} '{t.value}'"

/-- The token as a listing shows it, with the lexeme where it matters. -/
def listing (t : Token) : String :=
  if t.kind.carriesLexeme then s!"{t.kind.name} ({t.value})" else s!"{t.kind.name} ()"

end Token

end ExprLang
