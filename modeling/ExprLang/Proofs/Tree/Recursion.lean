import ExprLang.Proofs.Tree.Height
import ExprLang.Tree.Json
import ExprLang.Typing.Check

/-!
# Recursion over a tree

A function that calls itself for the children of a node has one open call for each level of the
tree it is in. So its stack is as deep as the tree is tall, however many nodes the tree has.

* `Recurses`: what a node becomes depends on the node and on what its children become.
* `foldWithin`: the same recursion with a bound on the open calls.
* **`Recurses.foldWithin_eq`**: the bound suffices exactly if the tree is no taller.
* `recurses_render`, `recurses_toJson`, `recurses_check`: the recursions over finished trees.
-/

namespace ExprLang.Tree

variable {β : Type}

/-- `h` calls itself for each child of a node, and `f` puts together what these calls return. -/
def Recurses (f : Tree → List β → β) (h : Tree → β) : Prop :=
  ∀ t : Tree, h t = f t (t.children.map h)

/-- The recursion with so many calls open at once at most; none if they are not enough. -/
def foldWithin (f : Tree → List β → β) : Nat → Tree → Option β
  | 0, _ => none
  | room + 1, t => (t.children.mapM (foldWithin f room)).map (f t)

/-- The calls for the children of a node need as much room as the tallest child. -/
theorem mapM_foldWithin {f : Tree → List β → β} {h : Tree → β} {room : Nat}
    (hroom : ∀ t : Tree, t.foldWithin f room = if t.rank ≤ room then some (h t) else none)
    (ts : List Tree) :
    ts.mapM (foldWithin f room) = if rankAll ts ≤ room then some (ts.map h) else none := by
  induction ts with
  | nil => simp [rankAll]
  | cons t ts ih =>
    rw [List.mapM_cons, hroom, ih, rankAll]
    by_cases ht : t.rank ≤ room
    · by_cases hts : rankAll ts ≤ room
      · rw [if_pos ht, if_pos hts, if_pos (Nat.max_le.mpr ⟨ht, hts⟩)]
        rfl
      · rw [if_pos ht, if_neg hts, if_neg fun h => hts (Nat.max_le.mp h).2]
        rfl
    · rw [if_neg ht, if_neg fun h => ht (Nat.max_le.mp h).1]
      rfl

/-- **A recursion needs one open call for each level of the tree**, and no more. -/
theorem Recurses.foldWithin_eq {f : Tree → List β → β} {h : Tree → β} (hf : Recurses f h)
    (room : Nat) (t : Tree) :
    t.foldWithin f room = if t.height ≤ room then some (h t) else none := by
  rw [height_eq_rank]
  induction room generalizing t with
  | zero => rw [foldWithin, if_neg (Nat.not_le.mpr t.rank_pos)]
  | succ room ih =>
    rw [foldWithin, mapM_foldWithin ih, rank_eq]
    by_cases hr : rankAll t.children ≤ room
    · rw [if_pos hr, if_pos (Nat.succ_le_succ hr), Option.map_some, ← hf t]
    · rw [if_neg hr, if_neg fun h => hr (Nat.le_of_succ_le_succ h), Option.map_none]

theorem Recurses.foldWithin_of_le {f : Tree → List β → β} {h : Tree → β} (hf : Recurses f h)
    {room : Nat} {t : Tree} (ht : t.height ≤ room) : t.foldWithin f room = some (h t) := by
  rw [hf.foldWithin_eq, if_pos ht]

/-! ## Rendering -/

/-- The text of a node from those of its children. -/
def renderNode : Tree → List String → String
  | literal token _, _ | reference token _ _, _ | declaration token _ _, _ => s!"({token.value})"
  | unary operator _ _, [x] => s!"({operator.value}{x})"
  | binary operator _ _ _, [x, y] | assignment operator _ _ _, [x, y] =>
    s!"({x}{operator.value}{y})"
  | block _, texts => "\x7b" ++ String.intercalate " " texts ++ "\x7d"
  | _, _ => "()"

theorem renderAll_eq_map (ts : List Tree) : renderAll ts = ts.map render := by
  induction ts with
  | nil => rfl
  | cons t ts ih => rw [renderAll, ih, List.map_cons]

theorem recurses_render : Recurses renderNode render := by
  intro t
  cases t with
  | block statements => rw [render, renderAll_eq_map, children, renderNode]
  | _ => rfl

/-! ## Serialization -/

/-- A node as JSON from its children as JSON. -/
def jsonNode : Tree → List Json → Json
  | literal token type, _ =>
    .object [("node", .text "Literal"), ("token", token.toJson), ("data_type", type.toJson)]
  | reference token type assignable, _ =>
    .object [("node", .text "Variable"), ("token", token.toJson),
      ("data_type", DataType.optionToJson type), ("mutable", .bool assignable)]
  | unary operator type _, [x] =>
    .object [("node", .text "Unary"), ("operator", operator.toJson),
      ("data_type", DataType.optionToJson type), ("operand", x)]
  | binary operator type _ _, [x, y] =>
    .object [("node", .text "Binary"), ("operator", operator.toJson),
      ("data_type", DataType.optionToJson type), ("left", x), ("right", y)]
  | declaration name type assignable, _ =>
    .object [("node", .text "Declaration"), ("name", name.toJson),
      ("data_type", DataType.optionToJson type), ("mutable", .bool assignable)]
  | assignment operator type _ _, [x, y] =>
    .object [("node", .text "Assignment"), ("operator", operator.toJson),
      ("data_type", DataType.optionToJson type), ("target", x), ("value", y)]
  | block _, statements => .object [("node", .text "Scope"), ("statements", .array statements)]
  | _, _ => .object [("node", .text "Empty")]

theorem toJsonAll_eq_map (ts : List Tree) : toJsonAll ts = ts.map toJson := by
  induction ts with
  | nil => rfl
  | cons t ts ih => rw [toJsonAll, ih, List.map_cons]

theorem recurses_toJson : Recurses jsonNode toJson := by
  intro t
  cases t with
  | block statements => rw [toJson, toJsonAll_eq_map, children, jsonNode]
  | _ => rfl

/-! ## Type checking -/

/-- The statements of a block, each checked unless one in front of it was stopped. -/
def checkedAll : List Tree → List Checked → CheckedAll
  | _ :: rest, x :: xs =>
    match x.fault with
    | some d => ⟨x.tree :: rest, some d⟩
    | none =>
      let r := checkedAll rest xs
      ⟨x.tree :: r.trees, r.fault⟩
  | trees, _ => ⟨trees, none⟩

/-- A node with two children that have been checked; the right one does not count if the left one
was stopped. -/
def checkedPair (node : Option DataType → Tree → Tree → Tree) (table : TypingTable)
    (operator : Token) (old : Option DataType) (right : Tree) (l r : Checked) : Checked :=
  let r := if l.fault.isSome then ⟨right, none⟩ else r
  let type := pairType table operator l r
  ⟨node (typeAfter old type) l.tree r.tree, faultOf type⟩

/-- A node, checked, from its children, checked. -/
def checkNode (table : TypingTable) : Tree → List Checked → Checked
  | unary operator old _, [x] =>
    let type := match x.fault with
      | some d => .error d
      | none => unaryType table operator x.tree
    ⟨unary operator (typeAfter old type) x.tree, faultOf type⟩
  | binary operator old _ right, [l, r] =>
    checkedPair (binary operator) table operator old right l r
  | assignment operator old _ value, [l, r] =>
    checkedPair (assignment operator) table operator old value l r
  | block statements, xs =>
    let r := checkedAll statements xs
    ⟨block r.trees, r.fault⟩
  | leaf, _ => ⟨leaf, none⟩

theorem checkAll_eq (table : TypingTable) (ts : List Tree) :
    checkAll table ts = checkedAll ts (ts.map (check table)) := by
  induction ts with
  | nil => rfl
  | cons t ts ih =>
    cases hx : (check table t).fault <;>
      simp only [checkAll, List.map_cons, checkedAll, hx, ih]

theorem recurses_check (table : TypingTable) : Recurses (checkNode table) (check table) := by
  intro t
  cases t with
  | block statements => rw [check, checkAll_eq, children, checkNode]
  | _ => rfl

end ExprLang.Tree
