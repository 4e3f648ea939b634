import ExprLang.Diagnostic
import ExprLang.Journal
import ExprLang.Tree
import ExprLang.Typing.Table

/-!
# Type checking

`Tree.check` types a tree bottom-up, left before right: every operator node gets the type that the
typing table gives for its operands, up to the first node for which there is none. It returns the
tree as far as it was typed and, if it stopped, the diagnostic. Leaves are left as they are, so that
a variable whose type is still open is refused as an operand only.

`unify` settles the type of a declaration from the one declared and the one of its initializer.
-/

namespace ExprLang

/-- A tree, typed as far as it could be, and what stopped it if anything did. -/
structure Checked where
  tree : Tree
  fault : Option Diagnostic

/-- Trees of a block, typed as far as they could be, and what stopped them if anything did. -/
structure CheckedAll where
  trees : List Tree
  fault : Option Diagnostic

namespace Tree

/-- The type of an operand; a type that is still open is an error at the operand. -/
def operandType (t : Tree) : Except Diagnostic DataType :=
  match t.type? with
  | some type => .ok type
  | none =>
    match t.token? with
    | some token => .error ⟨.undeterminedType token.value, token.line⟩
    | none => .error ⟨.undeterminedType "", 0⟩

/-- The type of an operator before an operand. -/
def unaryType (table : TypingTable) (operator : Token) (operand : Tree) :
    Except Diagnostic DataType := do
  let type ← operand.operandType
  match table.unary? operator.kind type with
  | some result => .ok result
  | none => .error ⟨.unaryMismatch operator.value type.id, operator.line⟩

/-- The type of an operator between two operands, of which the left one is looked at first. -/
def binaryType (table : TypingTable) (operator : Token) (left right : Tree) :
    Except Diagnostic DataType := do
  let leftType ← left.operandType
  let rightType ← right.operandType
  match table.binary? operator.kind leftType rightType with
  | some result => .ok result
  | none => .error ⟨.binaryMismatch operator.value leftType.id rightType.id, operator.line⟩

/-- The type a node has once its own type has been asked for. -/
def typeAfter (old : Option DataType) : Except Diagnostic DataType → Option DataType
  | .ok type => some type
  | .error _ => old

/-- What stopped the check of a node. -/
def faultOf : Except Diagnostic DataType → Option Diagnostic
  | .ok _ => none
  | .error d => some d

/-- The type of a node with two children that have been checked, or what stopped them. -/
def pairType (table : TypingTable) (operator : Token) (left right : Checked) :
    Except Diagnostic DataType :=
  match left.fault, right.fault with
  | some d, _ => .error d
  | none, some d => .error d
  | none, none => binaryType table operator left.tree right.tree

mutual

/-- Types a tree bottom-up, up to the first node that has no type. -/
def check (table : TypingTable) : Tree → Checked
  | unary operator old operand =>
    let x := check table operand
    let type := match x.fault with
      | some d => .error d
      | none => unaryType table operator x.tree
    ⟨unary operator (typeAfter old type) x.tree, faultOf type⟩
  | binary operator old left right =>
    let l := check table left
    let r := if l.fault.isSome then ⟨right, none⟩ else check table right
    let type := pairType table operator l r
    ⟨binary operator (typeAfter old type) l.tree r.tree, faultOf type⟩
  | assignment operator old target value =>
    let l := check table target
    let r := if l.fault.isSome then ⟨value, none⟩ else check table value
    let type := pairType table operator l r
    ⟨assignment operator (typeAfter old type) l.tree r.tree, faultOf type⟩
  | block statements =>
    let r := checkAll table statements
    ⟨block r.trees, r.fault⟩
  | leaf => ⟨leaf, none⟩

/-- Types trees one by one, up to the first that cannot be typed. -/
def checkAll (table : TypingTable) : List Tree → CheckedAll
  | [] => ⟨[], none⟩
  | tree :: rest =>
    let x := check table tree
    match x.fault with
    | some d => ⟨x.tree :: rest, some d⟩
    | none =>
      let r := checkAll table rest
      ⟨x.tree :: r.trees, r.fault⟩

end

end Tree

/-- The event that goes with the cause of a failed check: an operator without an entry. -/
def Cause.checkEvent? : Cause → Option Event
  | unaryMismatch operator operand => some (.noUnary operator operand)
  | binaryMismatch operator left right => some (.noBinary operator left right)
  | _ => none

/-- The type of a declaration: the one declared, or else that of the initializer. If there are
both they have to be the same. -/
def unify (declared initializer : Option DataType) (line : UInt32) : Except Diagnostic DataType :=
  match declared, initializer with
  | none, none => .error ⟨.undeterminedLeft, line⟩
  | none, some received => .ok received
  | some _, none => .error ⟨.missingRight, line⟩
  | some expected, some received =>
    if expected.same received then .ok expected
    else .error ⟨.typeMatch expected.id received.id, line⟩

end ExprLang
