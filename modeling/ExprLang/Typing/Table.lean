import ExprLang.DataType
import ExprLang.Table
import ExprLang.Token

/-!
# Typing tables

A typing table says which types an operator is defined on and the type of its result. Types are
looked up by id alone.
-/

namespace ExprLang

/-- An operator with the ids of the types of its operands. -/
inductive Signature where
  | unary (operator : Kind) (operand : String)
  | binary (operator : Kind) (left right : String)
  deriving DecidableEq

/-- The result type of each operator on each combination of operand types it is defined on. -/
structure TypingTable where
  entries : Table Signature DataType

namespace TypingTable

/-- The table that defines no operator. -/
def empty : TypingTable := ⟨.empty⟩

/-- Defines an operator before an operand. -/
def insertUnary (t : TypingTable) (operator : Kind) (operand result : DataType) : TypingTable :=
  ⟨t.entries.insert (.unary operator operand.id) result⟩

/-- Defines an operator between two operands. -/
def insertBinary (t : TypingTable) (operator : Kind) (left right result : DataType) :
    TypingTable :=
  ⟨t.entries.insert (.binary operator left.id right.id) result⟩

/-- The type of an operator before an operand. -/
def unary? (t : TypingTable) (operator : Kind) (operand : DataType) : Option DataType :=
  t.entries.get? (.unary operator operand.id)

/-- The type of an operator between two operands. -/
def binary? (t : TypingTable) (operator : Kind) (left right : DataType) : Option DataType :=
  t.entries.get? (.binary operator left.id right.id)

/-- The number of combinations defined. -/
def size (t : TypingTable) : Nat := t.entries.size

/-- Whether nothing is defined. -/
def isEmpty (t : TypingTable) : Bool := t.entries.isEmpty

/-- Defines an operator before each of several operands. -/
def insertUnaries (t : TypingTable) (operator : Kind) (cases : List (DataType × DataType)) :
    TypingTable :=
  cases.foldl (fun t c => t.insertUnary operator c.1 c.2) t

/-- Defines an operator between each of several pairs of operands. -/
def insertBinaries (t : TypingTable) (operator : Kind)
    (cases : List (DataType × DataType × DataType)) : TypingTable :=
  cases.foldl (fun t c => t.insertBinary operator c.1 c.2.1 c.2.2) t

/-! ## The standard table -/

/-- Numbers keep their type under a sign. -/
def signCases : List (DataType × DataType) := [(.int, .int), (.float, .float)]

/-- Arithmetic on two whole numbers gives a whole number, on any others a floating-point one. -/
def arithmeticCases : List (DataType × DataType × DataType) :=
  [(.int, .int, .int), (.int, .float, .float), (.float, .int, .float), (.float, .float, .float)]

/-- Some operators are for whole numbers only. -/
def wholeCases : List (DataType × DataType × DataType) := [(.int, .int, .int)]

/-- Logic is for truth values only. -/
def logicCases : List (DataType × DataType × DataType) := [(.bool, .bool, .bool)]

/-- Any two numbers have an order. -/
def orderCases : List (DataType × DataType × DataType) :=
  [(.int, .int, .bool), (.int, .float, .bool), (.float, .int, .bool), (.float, .float, .bool)]

/-- Two values of one type can be told apart. -/
def equalityCases : List (DataType × DataType × DataType) :=
  [(.int, .int, .bool), (.float, .float, .bool), (.bool, .bool, .bool)]

/-- An assignment keeps the type of its sides, which has to be the same. -/
def assignmentCases : List (DataType × DataType × DataType) :=
  [(.int, .int, .int), (.float, .float, .float), (.bool, .bool, .bool)]

/-- The binary operators of the standard language with their cases. -/
def standardBinaries : List (Kind × List (DataType × DataType × DataType)) :=
  ([.plus, .dash, .star, .slash, .pow].map (·, arithmeticCases))
    ++ ([.percent, .ampersand, .pipe].map (·, wholeCases))
    ++ ([.and, .or].map (·, logicCases))
    ++ ([.less, .greater, .lessEquals, .greaterEquals].map (·, orderCases))
    ++ ([.equals, .notEquals].map (·, equalityCases))
    ++ [(.assignment, assignmentCases)]

/-- The typing table of the standard language. -/
def standard : TypingTable :=
  let signs := [Kind.plus, .dash].foldl (fun t k => t.insertUnaries k signCases) empty
  standardBinaries.foldl (fun t e => t.insertBinaries e.1 e.2) signs

end TypingTable

end ExprLang
