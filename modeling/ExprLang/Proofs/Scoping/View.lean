import Mathlib.Data.List.Forall2
import ExprLang.Scope
import ExprLang.Tree

/-!
# Views

What is declared in front of each node of a program, read off its trees alone. A view is a block
structure of declarations; it is independent of the scopes that a parse keeps.

* `View`, `View.nearest`: the declarations visible at a point, and the innermost of a name.
* `Tree.declared`: what a statement adds to the block it stands in.
* `visits`, `visitsAll`: the nodes in the order of the source, each with its view.
* `Mirrors`, **`Mirrors.lookup`**: scopes that keep the declarations of a view find the same.
-/

namespace ExprLang

/-- The declarations visible at a point: those of the block it is in, the latest first, and those of
the blocks around it, the nearest first. -/
structure View where
  current : List Symbol
  enclosing : List (List Symbol)

/-- What is declared in a tree, in order, without the blocks inside. -/
def Tree.declared : Tree → List Symbol
  | declaration name type assignable => [⟨name.value, assignable, type⟩]
  | unary _ _ operand => declared operand
  | binary _ _ left right | assignment _ _ left right => declared left ++ declared right
  | literal .. | reference .. | empty | block _ => []

namespace View

/-- The view at the beginning of a program. -/
def root : View := ⟨[], []⟩

/-- The view at the beginning of a block. -/
def push (view : View) : View := ⟨[], view.current :: view.enclosing⟩

/-- The view behind further declarations. -/
def declare (view : View) (symbols : List Symbol) : View :=
  { view with current := symbols.reverse ++ view.current }

/-- The declaration of a name in one block. -/
def inFrame (id : String) (frame : List Symbol) : Option Symbol :=
  frame.find? fun symbol => symbol.id == id

/-- The innermost visible declaration of a name. -/
def nearest (view : View) (id : String) : Option Symbol :=
  (view.current :: view.enclosing).findSome? (inFrame id)

theorem declare_nil (view : View) : view.declare [] = view := rfl

theorem declare_append (view : View) (xs ys : List Symbol) :
    view.declare (xs ++ ys) = (view.declare xs).declare ys := by
  unfold declare
  rw [List.reverse_append, List.append_assoc]

end View

mutual

/-- The nodes of a tree, each before its children, with the view at each. -/
def visits (view : View) : Tree → List (View × Tree)
  | .unary o t operand => (view, .unary o t operand) :: visits view operand
  | .binary o t left right =>
    (view, .binary o t left right) ::
      (visits view left ++ visits (view.declare left.declared) right)
  | .assignment o t target value =>
    (view, .assignment o t target value) ::
      (visits view target ++ visits (view.declare target.declared) value)
  | .block statements => (view, .block statements) :: visitsAll view.push statements
  | leaf => [(view, leaf)]

/-- The nodes of trees that stand one after the other. -/
def visitsAll (view : View) : List Tree → List (View × Tree)
  | [] => []
  | tree :: rest => visits view tree ++ visitsAll (view.declare tree.declared) rest

end

mutual

theorem visits_map_snd (view : View) (tree : Tree) :
    (visits view tree).map Prod.snd = tree.preorder := by
  cases tree with
  | literal | reference | declaration | empty => rfl
  | unary => rw [visits, List.map_cons, visits_map_snd, Tree.preorder]
  | binary | assignment =>
    rw [visits, List.map_cons, List.map_append, visits_map_snd, visits_map_snd, Tree.preorder]
  | block => rw [visits, List.map_cons, visitsAll_map_snd, Tree.preorder]

/-- Every node is visited once, in the order of the source. -/
theorem visitsAll_map_snd (view : View) (trees : List Tree) :
    (visitsAll view trees).map Prod.snd = Tree.preorderAll trees := by
  cases trees with
  | nil => rfl
  | cons tree rest =>
    rw [visitsAll, List.map_append, visits_map_snd, visitsAll_map_snd, Tree.preorderAll]

end

theorem visitsAll_append (view : View) (xs ys : List Tree) :
    visitsAll view (xs ++ ys) =
      visitsAll view xs ++ visitsAll (view.declare (xs.flatMap Tree.declared)) ys := by
  induction xs generalizing view with
  | nil => rfl
  | cons x xs ih =>
    rw [List.cons_append, visitsAll, visitsAll, ih, List.flatMap_cons, View.declare_append,
      List.append_assoc]

theorem visitsAll_singleton (view : View) (tree : Tree) :
    visitsAll view [tree] = visits view tree :=
  List.append_nil _

/-! ## Scopes -/

/-- A chain of scopes finds what the innermost of its frames gives, whatever a frame is. -/
theorem lookupIn_of_forall₂ {α : Type} {id : String} {means : α → Option Symbol}
    {scopes : List Scope} {frames : List α}
    (h : List.Forall₂ (fun scope frame => scope.get? id = means frame) scopes frames) :
    Scopes.lookupIn id scopes = frames.findSome? means := by
  induction h with
  | nil => rfl
  | @cons _ frame _ _ hframe _ ih =>
    rw [Scopes.lookupIn, List.findSome?_cons, hframe, ih]
    cases means frame <;> rfl

/-- A scope that keeps the declarations of one block. -/
def SameFrame (scope : Scope) (frame : List Symbol) : Prop :=
  ∀ id, scope.get? id = View.inFrame id frame

/-- Scopes that keep the declarations of a view, block by block. -/
structure Mirrors (scopes : Scopes) (view : View) : Prop where
  current : SameFrame scopes.current view.current
  enclosing : List.Forall₂ SameFrame scopes.enclosing view.enclosing

namespace Mirrors

theorem root : Mirrors .root .root := ⟨fun _ => rfl, .nil⟩

theorem push {scopes : Scopes} {view : View} (h : Mirrors scopes view) :
    Mirrors scopes.push view.push := ⟨fun _ => rfl, .cons h.current h.enclosing⟩

/-- **A name means its innermost visible declaration.** -/
theorem lookup {scopes : Scopes} {view : View} (h : Mirrors scopes view) (id : String) :
    scopes.lookup id = view.nearest id :=
  lookupIn_of_forall₂ (.cons (h.current id) (h.enclosing.imp fun _ _ hframe => hframe id))

theorem declare {scopes behind : Scopes} {view : View} {symbol : Symbol}
    (h : Mirrors scopes view) (hd : scopes.declare? symbol = some behind) :
    Mirrors behind (view.declare [symbol]) := by
  unfold Scopes.declare? at hd
  split at hd
  · cases hd
  · cases hd
    refine ⟨fun id => ?_, h.enclosing⟩
    change _ = View.inFrame id (symbol :: view.current)
    rw [Table.get?_insert, View.inFrame, List.find?_cons]
    by_cases hid : symbol.id = id
    · rw [if_pos hid, beq_iff_eq.mpr hid]
    · rw [if_neg hid, beq_eq_false_iff_ne.mpr hid]
      exact h.current id

theorem resolve {scopes inner : Scopes} {view : View} {symbol : Symbol}
    (h : Mirrors scopes view) (hd : scopes.declare? symbol = some inner) (type : DataType) :
    Mirrors (inner.resolve symbol.id type)
      (view.declare [{ symbol with type := some type }]) := by
  unfold Scopes.declare? at hd
  split at hd
  · cases hd
  · cases hd
    refine ⟨fun id => ?_, h.enclosing⟩
    change (Table.modify _ _ _).get? id = View.inFrame id (_ :: view.current)
    rw [Table.get?_modify, Table.get?_insert, Table.get?_insert, View.inFrame, List.find?_cons]
    by_cases hid : symbol.id = id
    · rw [if_pos hid, beq_iff_eq.mpr hid, if_pos rfl]
      rfl
    · rw [if_neg hid, if_neg hid, beq_eq_false_iff_ne.mpr hid]
      exact h.current id

end Mirrors

end ExprLang
