import ExprLang.Proofs.Stream.Lexeme
import ExprLang.Proofs.Tree.Height

/-!
# Printed programs

Units as texts in the syntax of the language. Expressions are rendered with a pair of brackets for
every node; a declaration is written out with its type, a block with braces.

* `print`, `printAll`: the texts of units.
* `lexemes`, `unitLexemes`: the kinds and lexemes the texts are made of.
* `levels`, `unitLevels`: how many levels of nesting it takes to read them, at most three times the
  height (`unitLevels_le`).
-/

namespace ExprLang.Tree

/-! ## Texts -/

/-- The name of a type that is known. -/
def typeName : Option DataType → String
  | some type => type.id
  | none => ""

/-- The keyword of a declaration. -/
def keyword (assignable : Bool) : String := if assignable then "var" else "const"

/-- A declaration without its initializer and without its semicolon. -/
def heading (name : Token) (type : Option DataType) (assignable : Bool) : String :=
  keyword assignable ++ " " ++ name.value ++ " : " ++ typeName type

mutual

/-- A unit as a text. -/
def print : Tree → String
  | declaration name type assignable => heading name type assignable ++ " ;"
  | assignment _ _ (declaration name type assignable) value =>
    heading name type assignable ++ " = " ++ render value ++ " ;"
  | block statements => "\x7b " ++ printAll statements ++ "\x7d"
  | tree => render tree ++ " ;"

/-- Units as a text, one behind the other. -/
def printAll : List Tree → String
  | [] => ""
  | tree :: rest => print tree ++ " " ++ printAll rest

end

/-! ## Lexemes -/

/-- Lexemes in a pair of brackets. -/
def bracketed (xs : List (Kind × String)) : List (Kind × String) :=
  (.openParen, "(") :: (xs ++ [(.closeParen, ")")])

/-- The lexemes of an expression. -/
def lexemes : Tree → List (Kind × String)
  | literal token _ | reference token _ _ | declaration token _ _ => bracketed [token.lexeme]
  | unary operator _ operand => bracketed (operator.lexeme :: lexemes operand)
  | binary operator _ left right | assignment operator _ left right =>
    bracketed (lexemes left ++ operator.lexeme :: lexemes right)
  | empty | block _ => bracketed []

/-- The lexemes of a declaration without its initializer and without its semicolon. -/
def headingLexemes (name : Token) (type : Option DataType) (assignable : Bool) :
    List (Kind × String) :=
  [(if assignable then .varDecl else .constDecl, keyword assignable), name.lexeme, (.colon, ":"),
    (.typeName, typeName type)]

mutual

/-- The lexemes of a unit. -/
def unitLexemes : Tree → List (Kind × String)
  | declaration name type assignable =>
    headingLexemes name type assignable ++ [(.semicolon, ";")]
  | assignment _ _ (declaration name type assignable) value =>
    headingLexemes name type assignable ++
      (.assignment, "=") :: (lexemes value ++ [(.semicolon, ";")])
  | block statements =>
    (.openCurly, "\x7b") :: (unitsLexemes statements ++ [(.closeCurly, "\x7d")])
  | tree => lexemes tree ++ [(.semicolon, ";")]

/-- The lexemes of units, one behind the other. -/
def unitsLexemes : List Tree → List (Kind × String)
  | [] => []
  | tree :: rest => unitLexemes tree ++ unitsLexemes rest

end

/-! ## Nesting -/

/-- The levels it takes to read an expression in its brackets: one for them, one for the expression
inside, and those of a sign or of what stands to the right of an operator. -/
def levels : Tree → Nat
  | literal .. | reference .. | declaration .. | empty | block _ => 2
  | unary _ _ operand => levels operand + 3
  | binary _ _ left right | assignment _ _ left right => max (levels left + 2) (levels right + 3)

mutual

/-- The levels it takes to read a unit. -/
def unitLevels : Tree → Nat
  | declaration .. => 0
  | assignment _ _ (declaration ..) value => levels value + 1
  | block statements => max 1 (unitsLevels statements) + 1
  | tree => levels tree + 1

/-- The levels it takes to read each of several units. -/
def unitsLevels : List Tree → Nat
  | [] => 0
  | tree :: rest => max (unitLevels tree) (unitsLevels rest)

end

theorem unitsLevels_le_iff {trees : List Tree} {n : Nat} :
    unitsLevels trees ≤ n ↔ ∀ tree ∈ trees, unitLevels tree ≤ n := by
  induction trees with
  | nil => simp [unitsLevels]
  | cons tree rest ih => rw [unitsLevels, Nat.max_le, ih, List.forall_mem_cons]

theorem levels_lt (tree : Tree) : levels tree < 3 * tree.rank := by
  induction tree using levels.induct with
  | case1 | case2 | case3 | case4 => exact Nat.lt_succ_self 2
  | case5 statements =>
    rw [levels, rank]
    omega
  | case6 operator type operand ih =>
    rw [levels, rank]
    omega
  | case7 operator type left right ihl ihr =>
    rw [levels, rank]
    omega
  | case8 operator type target value ihl ihr =>
    rw [levels, rank]
    omega

mutual

theorem unitLevels_le_rank (tree : Tree) : unitLevels tree ≤ 3 * tree.rank := by
  cases tree with
  | block statements =>
    have := unitsLevels_le_rank statements
    rw [unitLevels, rank]
    omega
  | assignment operator type target value =>
    cases target with
    | declaration =>
      have := levels_lt value
      rw [unitLevels, rank]
      omega
    | _ => exact levels_lt _
  | declaration => exact Nat.zero_le _
  | _ => exact levels_lt _

theorem unitsLevels_le_rank (trees : List Tree) : unitsLevels trees ≤ 3 * rankAll trees := by
  cases trees with
  | nil => exact Nat.zero_le _
  | cons tree rest =>
    have := unitLevels_le_rank tree
    have := unitsLevels_le_rank rest
    rw [unitsLevels, rankAll]
    omega

end

/-- **Three levels for every level of the tree are enough.** -/
theorem unitLevels_le (tree : Tree) : unitLevels tree ≤ 3 * tree.height := by
  rw [height_eq_rank]
  exact unitLevels_le_rank tree

end ExprLang.Tree
