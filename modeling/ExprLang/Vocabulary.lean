import ExprLang.DataType
import ExprLang.Table
import ExprLang.Token

/-!
# Vocabularies

A vocabulary holds the reserved lexemes of a language: keywords, type names and operators, with the
precedence, associativity and positions of each operator, and the type of each kind of literal. It
is built by registrations (`Vocabulary.register`), and of two registrations of one lexeme, operator
kind or literal kind the later holds.

* `compareBinding`: which of two operators binds the operand between them.
* `classify`: what a word is.
-/

namespace ExprLang

/-- Which of two equal operators binds first. -/
inductive Associativity where
  | leftToRight
  | rightToLeft
  deriving DecidableEq, Inhabited

/-- Where an operator may stand. -/
inductive Position where
  | beforeOperand
  | betweenOperands
  | afterOperand
  deriving DecidableEq

/-- An operator: its kind, how tightly it binds, and where it may stand. -/
structure Operator where
  kind : Kind
  precedence : Nat
  associativity : Associativity
  positions : List Position
  deriving DecidableEq

/-- What a reserved lexeme stands for. -/
inductive Reserved where
  | keyword (kind : Kind)
  | dataType (type : DataType)
  | operator (op : Operator)
  deriving DecidableEq

/-- One entry made in a vocabulary. -/
inductive Registration where
  | keyword (word : String) (kind : Kind)
  | dataType (type : DataType)
  | literal (kind : Kind) (type : DataType)
  | operator (lexeme : String) (op : Operator)

/-- The reserved lexemes of a language. -/
structure Vocabulary where
  lexemes : Table String Reserved
  operators : Table Kind Operator
  literals : Table Kind DataType
  /-- The characters that end a word or a number. -/
  specials : List Char

namespace Vocabulary

/-- The vocabulary without registrations. Only `_` is special in it. -/
def empty : Vocabulary := ⟨.empty, .empty, .empty, ['_']⟩

/-- Adds one entry. Every character of an operator's lexeme becomes special. -/
def register (v : Vocabulary) : Registration → Vocabulary
  | .keyword word kind => { v with lexemes := v.lexemes.insert word (.keyword kind) }
  | .dataType type => { v with lexemes := v.lexemes.insert type.id (.dataType type) }
  | .literal kind type => { v with literals := v.literals.insert kind type }
  | .operator lexeme op =>
    { v with
      lexemes := v.lexemes.insert lexeme (.operator op)
      operators := v.operators.insert op.kind op
      specials := lexeme.toList ++ v.specials }

/-- Adds entries one after the other. -/
def registerAll (v : Vocabulary) (entries : List Registration) : Vocabulary :=
  entries.foldl register v

/-- What a lexeme is reserved for. -/
def lookup (v : Vocabulary) (lexeme : String) : Option Reserved := v.lexemes.get? lexeme

/-- The kind of a finished word: a keyword's, a type name, or an identifier. -/
def classify (v : Vocabulary) (word : String) : Kind :=
  match v.lookup word with
  | some (.keyword kind) => kind
  | some (.dataType _) => .typeName
  | _ => .identifier

/-- The kind of an operator lexeme. -/
def operatorKind? (v : Vocabulary) (lexeme : String) : Option Kind :=
  match v.lookup lexeme with
  | some (.operator op) => some op.kind
  | _ => none

/-- The type of a name. -/
def typeNamed? (v : Vocabulary) (name : String) : Option DataType :=
  match v.lookup name with
  | some (.dataType type) => some type
  | _ => none

/-- The operator last registered for a kind. -/
def operator? (v : Vocabulary) (kind : Kind) : Option Operator := v.operators.get? kind

/-- The type of the literals of a kind. -/
def literalType? (v : Vocabulary) (kind : Kind) : Option DataType := v.literals.get? kind

/-- Whether a character ends a word or a number. -/
def isSpecial (v : Vocabulary) (c : Char) : Bool := v.specials.contains c

/-- Whether the operator of a kind may stand in a position. -/
def standsAt (v : Vocabulary) (position : Position) (kind : Kind) : Bool :=
  (v.operator? kind).any fun op => op.positions.contains position

/-- Whether an operator of this kind may stand before its operand. -/
def isBefore (v : Vocabulary) (kind : Kind) : Bool := v.standsAt .beforeOperand kind

/-- Whether an operator of this kind may stand between its operands. -/
def isBetween (v : Vocabulary) (kind : Kind) : Bool := v.standsAt .betweenOperands kind

/-- Whether an operator of this kind may stand after its operand. -/
def isAfter (v : Vocabulary) (kind : Kind) : Bool := v.standsAt .afterOperand kind

/-- How tightly a kind binds; a kind that is no operator binds least. -/
def precedence (v : Vocabulary) (kind : Kind) : Nat :=
  match v.operator? kind with
  | some op => op.precedence
  | none => 0

/-- Compares how tightly an operator and the one coming in behind its operand bind that operand.
The one already there wins a tie (`gt`) exactly when it associates to the left. -/
def compareBinding (v : Vocabulary) (outer incoming : Kind) : Ordering :=
  match compare (v.precedence outer) (v.precedence incoming) with
  | .eq =>
    match v.operator? outer with
    | some op => if op.associativity = .leftToRight then .gt else .lt
    | none => .lt
  | strict => strict

end Vocabulary

end ExprLang
