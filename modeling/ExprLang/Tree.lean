import ExprLang.DataType
import ExprLang.Token

/-!
# Trees

The tree of a program has a node for each literal, variable, operator, declaration and block.
Nodes that stand for values carry a type once it is known.

* `Tree.render`: the tree as a fully bracketed text.
* `Tree.height`: the number of nodes on the longest way down, found with a stack of pending nodes
  so that it is no deeper recursion than the tree is wide.
* `Tree.same`: equality up to the lines of tokens and the sizes of types.
-/

namespace ExprLang

/-- The nodes of a program. -/
inductive Tree where
  /-- A literal and the type of its value. -/
  | literal (token : Token) (type : DataType)
  /-- A use of a variable or constant. -/
  | reference (token : Token) (type : Option DataType) (assignable : Bool)
  /-- An operator with one operand. -/
  | unary (operator : Token) (type : Option DataType) (operand : Tree)
  /-- An operator between two operands. -/
  | binary (operator : Token) (type : Option DataType) (left right : Tree)
  /-- The introduction of a variable or constant. -/
  | declaration (name : Token) (type : Option DataType) (assignable : Bool)
  /-- An assignment to a variable, or the initialization of a declaration. -/
  | assignment (operator : Token) (type : Option DataType) (target value : Tree)
  /-- A semicolon alone. -/
  | empty
  /-- A block of statements. -/
  | block (statements : List Tree)

instance : Inhabited Tree := ⟨.empty⟩

namespace Tree

/-- The name of the sort of a node. -/
def sort : Tree → String
  | literal .. => "Literal"
  | reference .. => "Variable"
  | unary .. => "Unary"
  | binary .. => "Binary"
  | declaration .. => "Declaration"
  | assignment .. => "Assignment"
  | empty => "Empty"
  | block _ => "Scope"

/-- The token a node is rooted at. A semicolon alone and a block have none. -/
def token? : Tree → Option Token
  | literal token _ | reference token _ _ => some token
  | unary operator .. | binary operator .. | assignment operator .. => some operator
  | declaration name .. => some name
  | empty | block _ => none

/-- The type of the value of a node, once it is known. -/
def type? : Tree → Option DataType
  | literal _ type => some type
  | reference _ type _ | unary _ type _ | binary _ type _ _ | declaration _ type _
  | assignment _ type _ _ => type
  | empty | block _ => none

/-- Whether the name of a reference or a declaration may be assigned to. -/
def assignable? : Tree → Option Bool
  | reference _ _ assignable | declaration _ _ assignable => some assignable
  | _ => none

/-- The children of a node, left to right. -/
def children : Tree → List Tree
  | unary _ _ operand => [operand]
  | binary _ _ left right => [left, right]
  | assignment _ _ target value => [target, value]
  | block statements => statements
  | _ => []

/-- Whether a node is a semicolon alone. -/
def isEmpty : Tree → Bool
  | empty => true
  | _ => false

/-! ## Texts -/

mutual

/-- The tree as a text with a pair of brackets for every node. -/
def render : Tree → String
  | literal token _ => s!"({token.value})"
  | reference token _ _ => s!"({token.value})"
  | declaration name _ _ => s!"({name.value})"
  | unary operator _ operand => s!"({operator.value}{render operand})"
  | binary operator _ left right => s!"({render left}{operator.value}{render right})"
  | assignment operator _ target value => s!"({render target}{operator.value}{render value})"
  | empty => "()"
  | block statements => "\x7b" ++ String.intercalate " " (renderAll statements) ++ "\x7d"

/-- The texts of trees, one by one. -/
def renderAll : List Tree → List String
  | [] => []
  | tree :: rest => render tree :: renderAll rest

end

/-! ## Equality of programs -/

mutual

/-- Whether two trees agree in all but the lines of tokens and the sizes of types. -/
def same : Tree → Tree → Bool
  | literal a s, literal b t => a.same b && s.same t
  | reference a s m, reference b t n => a.same b && DataType.sameOption s t && m == n
  | unary a s x, unary b t y => a.same b && DataType.sameOption s t && same x y
  | binary a s x x', binary b t y y' =>
    a.same b && DataType.sameOption s t && same x y && same x' y'
  | declaration a s m, declaration b t n => a.same b && DataType.sameOption s t && m == n
  | assignment a s x x', assignment b t y y' =>
    a.same b && DataType.sameOption s t && same x y && same x' y'
  | empty, empty => true
  | block xs, block ys => sameAll xs ys
  | _, _ => false

/-- Whether two lists of trees agree tree by tree. -/
def sameAll : List Tree → List Tree → Bool
  | [], [] => true
  | x :: xs, y :: ys => same x y && sameAll xs ys
  | _, _ => false

end

/-! ## Size and height -/

mutual

/-- The number of nodes. -/
def size : Tree → Nat
  | literal .. | reference .. | declaration .. | empty => 1
  | unary _ _ operand => size operand + 1
  | binary _ _ left right => size left + size right + 1
  | assignment _ _ target value => size target + size value + 1
  | block statements => sizeAll statements + 1

/-- The number of nodes of all trees of a list. -/
def sizeAll : List Tree → Nat
  | [] => 0
  | tree :: rest => size tree + sizeAll rest

end

theorem sizeAll_append (xs ys : List Tree) : sizeAll (xs ++ ys) = sizeAll xs + sizeAll ys := by
  induction xs with
  | nil => simp [sizeAll]
  | cons x xs ih => simp [sizeAll, ih, Nat.add_assoc]

theorem sizeAll_children (t : Tree) : sizeAll t.children + 1 = t.size := by
  cases t <;> simp [children, sizeAll, size]

/-- The greatest level among `deepest` and the levels at and below pending nodes, each of which is
paired with its own level. -/
def deepestFrom (deepest : Nat) : List (Tree × Nat) → Nat
  | [] => deepest
  | (tree, level) :: pending =>
    deepestFrom (max deepest level) (tree.children.map (·, level + 1) ++ pending)
termination_by pending => sizeAll (pending.map Prod.fst)
decreasing_by
  have h := sizeAll_children tree
  have hm : (tree.children.map (·, level + 1)).map Prod.fst = tree.children := by
    simp [List.map_map, Function.comp_def]
  simp only [List.map_append, sizeAll_append, hm, List.map_cons, sizeAll]
  omega

/-- The number of nodes on the longest way down from the root. -/
def height (t : Tree) : Nat := deepestFrom 0 [(t, 1)]

mutual

/-- The nodes of a tree, each before its children. -/
def preorder : Tree → List Tree
  | unary o t operand => unary o t operand :: preorder operand
  | binary o t left right => binary o t left right :: (preorder left ++ preorder right)
  | assignment o t target value =>
    assignment o t target value :: (preorder target ++ preorder value)
  | block statements => block statements :: preorderAll statements
  | leaf => [leaf]

/-- The nodes of trees, tree by tree. -/
def preorderAll : List Tree → List Tree
  | [] => []
  | tree :: rest => preorder tree ++ preorderAll rest

end

end Tree

end ExprLang
