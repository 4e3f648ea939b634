import ExprLang.Proofs.Language.Derivation
import ExprLang.Proofs.Scoping.View
import ExprLang.Proofs.Stream.Lexeme
import ExprLang.Typing.Table

/-!
# Well-formed programs

Which trees are the units of a program, said of the trees alone. Types are compared by their ids.

* `Producible`: tokens that a source can contain.
* `Expressible`: expressions whose names are visible and whose nodes have the types that vocabulary,
  typing table and declarations give them.
* `WellFormed`: statements and blocks in which every name is declared once a block.
-/

namespace ExprLang

/-- A token that some source contains, on whatever line. -/
def Producible (v : Vocabulary) (token : Token) : Prop :=
  ∃ source tokens stream found,
    TokenStream.tokenize v (.ofSource source) = .ok tokens stream ∧ found ∈ tokens ∧
      found.same token = true

/-- An operator spelled as it is registered. -/
def Registered (v : Vocabulary) (operator : Token) : Prop :=
  v.operatorKind? operator.value = some operator.kind

/-- Expressions, with the declarations they see. -/
inductive Expressible (v : Vocabulary) (table : TypingTable) (view : View) : Tree → Prop
  | literal {token : Token} {type found : DataType} (producible : Producible v token)
      (known : v.literalType? token.kind = some found) (typed : type.same found = true) :
      Expressible v table view (.literal token type)
  | reference {token : Token} {type : Option DataType} {assignable : Bool} {symbol : Symbol}
      (named : token.kind = .identifier) (producible : Producible v token)
      (visible : view.nearest token.value = some symbol)
      (typed : DataType.sameOption type symbol.type = true)
      (mutability : symbol.assignable = assignable) :
      Expressible v table view (.reference token type assignable)
  | unary {operator : Token} {type : Option DataType} {operand : Tree} {x result : DataType}
      (sign : operator.kind ∈ signKinds) (registered : Registered v operator)
      (inner : Expressible v table view operand) (known : operand.type? = some x)
      (entry : table.unary? operator.kind x = some result)
      (typed : DataType.sameOption type (some result) = true) :
      Expressible v table view (.unary operator type operand)
  | binary {operator : Token} {type : Option DataType} {left right : Tree}
      {x y result : DataType} (joins : operator.kind ∈ infixKinds)
      (evaluates : operator.kind ≠ .assignment) (registered : Registered v operator)
      (first : Expressible v table view left) (second : Expressible v table view right)
      (known : left.type? = some x ∧ right.type? = some y)
      (entry : table.binary? operator.kind x y = some result)
      (typed : DataType.sameOption type (some result) = true) :
      Expressible v table view (.binary operator type left right)
  | assignment {operator token : Token} {type old : Option DataType} {value : Tree}
      {x y result : DataType} (assigns : operator.kind = .assignment)
      (registered : Registered v operator)
      (target : Expressible v table view (.reference token old true))
      (source : Expressible v table view value) (known : old = some x ∧ value.type? = some y)
      (entry : table.binary? operator.kind x y = some result)
      (typed : DataType.sameOption type (some result) = true) :
      Expressible v table view (.assignment operator type (.reference token old true) value)

/-- What may be declared at a point: a name that is new in its block, with a type that has one. -/
structure Declares (v : Vocabulary) (view : View) (name : Token) (type : Option DataType) :
    Prop where
  named : name.kind = .identifier
  producible : Producible v name
  fresh : View.inFrame name.value view.current = none
  known : ∃ found, v.typeNamed? found.id = some found ∧
    DataType.sameOption type (some found) = true

/-- Statements and blocks, one behind the other, with the declarations that the first one sees. An
initializer sees the name it is for. -/
inductive WellFormed (v : Vocabulary) (table : TypingTable) : View → List Tree → Prop
  | nil {view : View} : WellFormed v table view []
  | expression {view : View} {tree : Tree} {rest : List Tree}
      (first : Expressible v table view tree) (more : WellFormed v table view rest) :
      WellFormed v table view (tree :: rest)
  | bare {view : View} {name : Token} {type : Option DataType} {assignable : Bool}
      {rest : List Tree} (declares : Declares v view name type)
      (more : WellFormed v table (view.declare [⟨name.value, assignable, type⟩]) rest) :
      WellFormed v table view (.declaration name type assignable :: rest)
  | initialized {view : View} {operator name : Token} {result type : Option DataType}
      {assignable : Bool} {value : Tree} {rest : List Tree} (declares : Declares v view name type)
      (assigns : operator.kind = .assignment) (registered : Registered v operator)
      (source : Expressible v table (view.declare [⟨name.value, assignable, type⟩]) value)
      (typed : DataType.sameOption type value.type? = true ∧
        DataType.sameOption result type = true)
      (more : WellFormed v table (view.declare [⟨name.value, assignable, type⟩]) rest) :
      WellFormed v table view
        (.assignment operator result (.declaration name type assignable) value :: rest)
  | block {view : View} {statements rest : List Tree} (filled : statements ≠ [])
      (inner : WellFormed v table view.push statements) (more : WellFormed v table view rest) :
      WellFormed v table view (.block statements :: rest)

/-! ## Types -/

namespace DataType

theorem sameOption_iff {a b : Option DataType} :
    sameOption a b = true ↔ a.map id = b.map id := by
  cases a <;> cases b <;> simp [sameOption, same_iff]

end DataType

namespace TypingTable

variable {table : TypingTable} {kind : Kind} {x x' y y' : DataType}

theorem unary?_congr (hx : x.id = x'.id) : table.unary? kind x = table.unary? kind x' := by
  unfold unary?
  rw [hx]

theorem binary?_congr (hx : x.id = x'.id) (hy : y.id = y'.id) :
    table.binary? kind x y = table.binary? kind x' y' := by
  unfold binary?
  rw [hx, hy]

end TypingTable

namespace Tree

theorem type?_of_same {a b : Tree} (h : same a b = true) :
    a.type?.map DataType.id = b.type?.map DataType.id := by
  cases a <;> cases b <;> simp_all [same, type?, DataType.sameOption_iff, DataType.same_iff]

end Tree

end ExprLang
