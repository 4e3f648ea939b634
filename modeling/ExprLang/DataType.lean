/-!
# Data types

A data type is known by its id; the size is a property of it. Two descriptions with one id are the
same type (`DataType.same`), whatever sizes they give.
-/

namespace ExprLang

/-- A type of the language and the bytes a value of it takes. -/
structure DataType where
  id : String
  size : Nat
  deriving DecidableEq, Inhabited

namespace DataType

/-- Whether two descriptions name one type. -/
def same (a b : DataType) : Bool := a.id == b.id

theorem same_iff {a b : DataType} : a.same b = true ↔ a.id = b.id := by simp [same]

/-- Whether two descriptions, each perhaps missing, name one type or are both missing. -/
def sameOption : Option DataType → Option DataType → Bool
  | none, none => true
  | some a, some b => a.same b
  | _, _ => false

/-- Signed whole numbers. -/
def int : DataType := ⟨"Int", 4⟩

/-- Floating-point numbers. -/
def float : DataType := ⟨"Float", 4⟩

/-- Truth values. -/
def bool : DataType := ⟨"Bool", 1⟩

/-- How many different types a list describes. -/
def countDistinct (types : List DataType) : Nat := (types.map DataType.id).eraseDups.length

end DataType

end ExprLang
