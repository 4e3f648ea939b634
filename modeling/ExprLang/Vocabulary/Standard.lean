import ExprLang.Vocabulary

/-!
# The standard vocabulary

Two declaration keywords, two truth values, three types, and the operators and punctuation of the
standard language, from the loosest binding to the tightest.
-/

namespace ExprLang.Vocabulary

/-- The registration of an operator that stands between its operands. -/
private def between (lexeme : String) (kind : Kind) (precedence : Nat) : Registration :=
  .operator lexeme ⟨kind, precedence, .leftToRight, [.betweenOperands]⟩

/-- The registration of an operator that stands before its operand or between its operands. -/
private def sign (lexeme : String) (kind : Kind) (precedence : Nat) : Registration :=
  .operator lexeme ⟨kind, precedence, .leftToRight, [.beforeOperand, .betweenOperands]⟩

/-- The registration of a lexeme that no expression uses as an operator. -/
private def mark (lexeme : String) (kind : Kind) (precedence : Nat) : Registration :=
  .operator lexeme ⟨kind, precedence, .leftToRight, []⟩

/-- The entries of the standard vocabulary. -/
def standardEntries : List Registration := [
  .keyword "var" .varDecl,
  .keyword "const" .constDecl,
  .keyword "true" .boolLiteral,
  .keyword "false" .boolLiteral,
  .dataType .int,
  .dataType .float,
  .dataType .bool,
  .literal .intLiteral .int,
  .literal .floatLiteral .float,
  .literal .boolLiteral .bool,
  .operator "=" ⟨.assignment, 1, .rightToLeft, [.betweenOperands]⟩,
  between "||" .or 2,
  between "&&" .and 3,
  between "|" .pipe 4,
  between "&" .ampersand 5,
  between "==" .equals 6,
  between "!=" .notEquals 6,
  between "<" .less 7,
  between ">" .greater 7,
  between "<=" .lessEquals 7,
  between ">=" .greaterEquals 7,
  sign "+" .plus 10,
  sign "-" .dash 10,
  between "*" .star 20,
  between "/" .slash 20,
  between "%" .percent 20,
  between "**" .pow 30,
  mark "~" .tilde 40,
  mark "!" .not 40,
  mark "(" .openParen 0,
  mark ")" .closeParen 0,
  mark "\x7b" .openCurly 0,
  mark "\x7d" .closeCurly 0,
  mark ":" .colon 0,
  mark ";" .semicolon 0,
  mark "." .dot 0]

/-- The vocabulary of the standard language. -/
def standard : Vocabulary := empty.registerAll standardEntries

end ExprLang.Vocabulary
