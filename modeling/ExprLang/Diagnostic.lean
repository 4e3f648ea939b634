/-!
# Diagnostics

A diagnostic is the cause of a failure and the line it is blamed on. Each cause has a name, a
category, a description and, for some, a tip (`Cause.tip?`). A failure of a front-end action is a
diagnostic, or the text of a failed read, which no line can be blamed for (`Failure`).
-/

namespace ExprLang

/-- Why a program is refused. -/
inductive Cause where
  /-- A character that may not stand behind a word. -/
  | invalidCharacter (character : Char) (after : String)
  /-- A number that does not end where it should, or lacks its exponent. -/
  | invalidNumber (after : String)
  /-- A character that starts no lexeme. -/
  | invalidSyntax (character : Char)
  /-- A token that has to stand here is missing. -/
  | missingToken (expected : String)
  /-- A token that may not stand here. -/
  | unexpectedToken (token : String)
  /-- Nothing usable follows an operator or an opening parenthesis. -/
  | expectedOperand (operator : String)
  /-- An operator that needs an operand before it has none. -/
  | missingOperand (operator : String)
  /-- An operand is followed by something other than an operator. -/
  | expectedBetween (after : String)
  /-- Nothing usable follows a sign. -/
  | expectedSigned
  /-- A declaration without a name. -/
  | expectedVariableName
  /-- A colon without a type behind it. -/
  | expectedTypeName
  /-- The left side of an assignment is no variable. -/
  | expectedAssignable
  /-- An initializer without an expression. -/
  | emptyInitializer
  /-- A token that starts neither a statement nor a block. -/
  | unitExpected (token : String)
  /-- Operators, parentheses or blocks are nested beyond the limit. -/
  | nestingTooDeep (limit : Nat)
  /-- A name that is not declared. -/
  | invalidId (id : String)
  /-- An assignment to a name that is not declared. -/
  | invalidVariable (id : String)
  /-- An assignment to a constant. -/
  | constantAssignment (id : String)
  /-- A second declaration of a name in one scope. -/
  | alreadyDeclared (id : String)
  /-- A name whose type is not known where it is needed. -/
  | undeterminedType (id : String)
  /-- A declaration with neither a type nor a typed initializer. -/
  | undeterminedLeft
  /-- An initializer without a type. -/
  | missingRight
  /-- An operator before an operand of a type it is not defined on. -/
  | unaryMismatch (operator operand : String)
  /-- An operator between operands of types it is not defined on. -/
  | binaryMismatch (operator left right : String)
  /-- An initializer of another type than the one declared. -/
  | typeMatch (expected received : String)
  deriving DecidableEq

/-- The part of the front end a cause belongs to. -/
inductive Category where
  | lexical
  | syntactic
  | semantic
  deriving DecidableEq

/-- The category as reports print it. -/
def Category.label : Category → String
  | lexical => "lexical error"
  | syntactic => "syntax error"
  | semantic => "semantic error"

namespace Cause

/-- The name under which a cause is reported. -/
def name : Cause → String
  | invalidCharacter .. => "InvalidCharacter"
  | invalidNumber _ => "InvalidNumber"
  | invalidSyntax _ => "InvalidSyntax"
  | missingToken _ => "MissingToken"
  | unexpectedToken _ => "UnexpectedToken"
  | expectedOperand _ => "ExpectedOperand"
  | missingOperand _ => "MissingOperand"
  | expectedBetween _ => "ExpectedInfixOperator"
  | expectedSigned => "ExpectedPrefixOperand"
  | expectedVariableName => "ExpectedVariableName"
  | expectedTypeName => "ExpectedTypeName"
  | expectedAssignable => "ExpectedAssignable"
  | emptyInitializer => "EmptyInitializer"
  | unitExpected _ => "UnitExpected"
  | nestingTooDeep _ => "NestingTooDeep"
  | invalidId _ => "InvalidId"
  | invalidVariable _ => "InvalidVariable"
  | constantAssignment _ => "ConstantAssignment"
  | alreadyDeclared _ => "VariableAlreadyDeclared"
  | undeterminedType _ => "UndeterminedType"
  | undeterminedLeft => "UndeterminedLhsType"
  | missingRight => "MissingRhsType"
  | unaryMismatch .. => "UnaryOperandMismatch"
  | binaryMismatch .. => "BinaryOperandMismatch"
  | typeMatch .. => "TypeMatchError"

/-- The category of a cause. -/
def category : Cause → Category
  | invalidCharacter .. | invalidNumber _ | invalidSyntax _ => .lexical
  | missingToken _ | unexpectedToken _ | expectedOperand _ | missingOperand _ | expectedBetween _
  | expectedSigned | expectedVariableName | expectedTypeName | emptyInitializer | unitExpected _
  | nestingTooDeep _ => .syntactic
  | expectedAssignable | invalidId _ | invalidVariable _ | constantAssignment _
  | alreadyDeclared _ | undeterminedType _ | undeterminedLeft | missingRight | unaryMismatch ..
  | binaryMismatch .. | typeMatch .. => .semantic

/-- What a cause says, without the line. -/
def description : Cause → String
  | invalidCharacter character after => s!"invalid character '{character}' after '{after}'"
  | invalidNumber after => s!"invalid numeric expression after '{after}'"
  | invalidSyntax character => s!"invalid syntax at '{character}'"
  | missingToken expected => s!"missing '{expected}'"
  | unexpectedToken token => s!"unexpected '{token}'"
  | expectedOperand operator => s!"expected an operand after '{operator}'"
  | missingOperand operator => s!"missing an operand before the operator '{operator}'"
  | expectedBetween after => s!"expected an infix operator after '{after}'"
  | expectedSigned => "expected an expression following the prefix operator"
  | expectedVariableName => "expected a variable name"
  | expectedTypeName => "expected a type after ':'"
  | expectedAssignable => "expected a variable before '='"
  | emptyInitializer => "expected a nonempty expression after '='"
  | unitExpected token => s!"invalid syntax at '{token}'"
  | nestingTooDeep limit => s!"maximum nesting depth of {limit} exceeded"
  | invalidId id => s!"invalid ID '{id}'"
  | invalidVariable id => s!"invalid variable '{id}'"
  | constantAssignment id => s!"'{id}' is a constant"
  | alreadyDeclared id => s!"cannot redeclare '{id}'"
  | undeterminedType id => s!"cannot determine the type of '{id}'"
  | undeterminedLeft => "cannot determine the type for the left-hand side"
  | missingRight => "no type detected on the right-hand side"
  | unaryMismatch operator operand =>
    s!"operator '{operator}' is not compatible with type '{operand}'"
  | binaryMismatch operator left right =>
    s!"operator '{operator}' is not compatible with type '{left}' and type '{right}'"
  | typeMatch expected received =>
    s!"unable to assign a variable of type '{expected}' to data of type '{received}'"

/-- Advice on how to mend the program. -/
def tip? : Cause → Option String
  | missingToken expected =>
    if expected = ";" then some "every statement must end with `;`" else none
  | constantAssignment id => some s!"declare `{id}` with `var` to make it reassignable"
  | alreadyDeclared id => some s!"open a new block to shadow `{id}`"
  | undeterminedType id => some s!"annotate `{id}` with a type or give it an initializer"
  | typeMatch expected _ => some s!"the initializer must have type `{expected}`"
  | nestingTooDeep limit => some s!"raise the nesting limit above {limit}"
  | _ => none

end Cause

/-- A cause and the line it is blamed on. -/
structure Diagnostic where
  cause : Cause
  line : UInt32
  deriving DecidableEq

/-- What a diagnostic says, with its line. -/
def Diagnostic.message (d : Diagnostic) : String := s!"{d.cause.description} on line {d.line}"

/-- Why a front-end action failed. -/
inductive Failure where
  /-- The program is refused. -/
  | refused (diagnostic : Diagnostic)
  /-- The source cannot be read; the text is that of the failed read. -/
  | unreadable (text : String)
  deriving DecidableEq

/-- What a failure says. -/
def Failure.message : Failure → String
  | refused d => d.message
  | unreadable text => s!"failed to read source: {text}"

/-- Fails with a cause that is blamed on a line. -/
def refuse {σ α : Type} (cause : Cause) (line : UInt32) : EStateM Failure σ α :=
  throw (.refused ⟨cause, line⟩)

end ExprLang
