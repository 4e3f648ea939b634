import Mathlib.Logic.Relation
import ExprLang.Tree

/-!
# Heights

* `rank`, `rank_eq_max`: the height of a tree by recursion on it.
* **`height_eq_rank`**: the stack of pending nodes finds the same number.
* `Visits`, **`visits_iff`**: so it does in whatever order pending nodes are taken.
* `height_unary`, `height_binary`, `height_assignment`, `height_block_le`: the height of a node from
  those of its children.
-/

namespace ExprLang.Tree

mutual

/-- One more than the greatest rank of a child. -/
def rank : Tree → Nat
  | literal .. | reference .. | declaration .. | empty => 1
  | unary _ _ operand => rank operand + 1
  | binary _ _ left right => max (rank left) (rank right) + 1
  | assignment _ _ target value => max (rank target) (rank value) + 1
  | block statements => rankAll statements + 1

/-- The greatest rank of a tree in a list. -/
def rankAll : List Tree → Nat
  | [] => 0
  | tree :: rest => max (rank tree) (rankAll rest)

end

theorem rank_eq (t : Tree) : t.rank = rankAll t.children + 1 := by
  cases t <;> simp [rank, rankAll, children]

theorem rank_pos (t : Tree) : 0 < t.rank := by
  rw [rank_eq]
  omega

theorem rankAll_eq_max (ts : List Tree) : rankAll ts = (ts.map rank).max?.getD 0 := by
  induction ts with
  | nil => rfl
  | cons t ts ih =>
    rw [rankAll, ih, List.map_cons, List.max?_cons]
    cases (ts.map rank).max? <;> simp

/-- A node without children has rank 1, any other has one more than the greatest rank of a child. -/
theorem rank_eq_max (t : Tree) : t.rank = (t.children.map rank).max?.elim 1 (1 + ·) := by
  rw [rank_eq, rankAll_eq_max]
  cases (t.children.map rank).max? <;> simp [Nat.add_comm]

/-- The greatest level at and below nodes that are paired with their own levels. -/
def lowest : List (Tree × Nat) → Nat
  | [] => 0
  | (tree, level) :: rest => max (level + tree.rank - 1) (lowest rest)

theorem lowest_append (xs ys : List (Tree × Nat)) :
    lowest (xs ++ ys) = max (lowest xs) (lowest ys) := by
  induction xs with
  | nil => simp [lowest]
  | cons x xs ih => rw [List.cons_append, lowest, ih, lowest, Nat.max_assoc]

/-- Nodes of one level reach as much further down as their greatest rank says. -/
theorem lowest_map (ts : List Tree) (level : Nat) :
    max level (lowest (ts.map (·, level + 1))) = level + rankAll ts := by
  induction ts with
  | nil => simp [lowest, rankAll]
  | cons t ts ih =>
    have := rank_pos t
    rw [List.map_cons, lowest, rankAll]
    omega

theorem deepestFrom_eq (deepest : Nat) (pending : List (Tree × Nat)) :
    deepestFrom deepest pending = max deepest (lowest pending) := by
  fun_induction deepestFrom deepest pending with
  | case1 deepest => simp [lowest]
  | case2 deepest tree level pending ih =>
    have hc := lowest_map tree.children level
    have hr := rank_eq tree
    rw [ih, lowest_append, lowest]
    omega

/-- **The height of a tree is its rank.** -/
theorem height_eq_rank (t : Tree) : t.height = t.rank := by
  have := rank_pos t
  rw [height, deepestFrom_eq, lowest, lowest]
  omega

/-! ## Other orders -/

/-- A step of a traversal, which keeps the greatest level so far and the pending nodes with theirs:
any pending node is taken, and its children are put among the others at any place. -/
inductive Visits : Nat × List (Tree × Nat) → Nat × List (Tree × Nat) → Prop
  | take {deepest level : Nat} {tree : Tree} {before after pending : List (Tree × Nat)}
      (others : pending.Perm (tree.children.map (·, level + 1) ++ (before ++ after))) :
      Visits (deepest, before ++ (tree, level) :: after) (max deepest level, pending)

theorem lowest_perm {xs ys : List (Tree × Nat)} (h : xs.Perm ys) : lowest xs = lowest ys := by
  induction h with
  | nil => rfl
  | cons x _ ih => rw [lowest, lowest, ih]
  | swap x y rest =>
    simp only [lowest]
    omega
  | trans _ _ ih ih' => exact ih.trans ih'

/-- A step leaves what is still to be reached. -/
theorem Visits.max_lowest {x y : Nat × List (Tree × Nat)} (h : Visits x y) :
    max y.1 (lowest y.2) = max x.1 (lowest x.2) := by
  cases h with
  | @take deepest level tree before after pending others =>
    have hc := lowest_map tree.children level
    have hr := rank_eq tree
    simp only [lowest_perm others, lowest_append, lowest]
    omega

theorem exists_visits (deepest : Nat) (pending : List (Tree × Nat)) :
    Relation.ReflTransGen Visits (deepest, pending) (deepestFrom deepest pending, []) := by
  fun_induction deepestFrom deepest pending with
  | case1 deepest => exact .refl
  | case2 deepest tree level pending ih =>
    have hfirst : Visits (deepest, [] ++ (tree, level) :: pending)
        (max deepest level, tree.children.map (·, level + 1) ++ pending) := .take (.refl _)
    exact .head hfirst ih

/-- **The order does not matter**: a traversal ends with the height of the tree, and with no other
number. -/
theorem visits_iff (t : Tree) (deepest : Nat) :
    Relation.ReflTransGen Visits (0, [(t, 1)]) (deepest, []) ↔ deepest = t.height := by
  constructor
  · intro h
    have hkeeps : ∀ y, Relation.ReflTransGen Visits (0, [(t, 1)]) y →
        max y.1 (lowest y.2) = max 0 (lowest [(t, 1)]) := by
      intro y hy
      induction hy with
      | refl => rfl
      | tail _ hstep ih => exact hstep.max_lowest.trans ih
    rw [height, deepestFrom_eq, ← hkeeps _ h]
    simp [lowest]
  · rintro rfl
    exact exists_visits 0 [(t, 1)]

theorem height_pos (t : Tree) : 0 < t.height := by
  rw [height_eq_rank]
  exact rank_pos t

theorem height_unary (operator : Token) (type : Option DataType) (x : Tree) :
    (unary operator type x).height = x.height + 1 := by
  rw [height_eq_rank, height_eq_rank, rank]

theorem height_binary (operator : Token) (type : Option DataType) (x y : Tree) :
    (binary operator type x y).height = max x.height y.height + 1 := by
  rw [height_eq_rank, height_eq_rank, height_eq_rank, rank]

theorem height_assignment (operator : Token) (type : Option DataType) (x y : Tree) :
    (assignment operator type x y).height = max x.height y.height + 1 := by
  rw [height_eq_rank, height_eq_rank, height_eq_rank, rank]

theorem height_declaration (name : Token) (type : Option DataType) (assignable : Bool) :
    (declaration name type assignable).height = 1 := by
  rw [height_eq_rank, rank]

theorem rankAll_le {bound : Nat} {trees : List Tree} (h : ∀ tree ∈ trees, tree.rank ≤ bound) :
    rankAll trees ≤ bound := by
  induction trees with
  | nil => exact Nat.zero_le _
  | cons tree trees ih =>
    obtain ⟨htree, htrees⟩ := List.forall_mem_cons.mp h
    exact Nat.max_le.mpr ⟨htree, ih htrees⟩

theorem height_block_le {bound : Nat} {trees : List Tree}
    (h : ∀ tree ∈ trees, tree.height ≤ bound) : (block trees).height ≤ bound + 1 := by
  rw [height_eq_rank, rank]
  exact Nat.succ_le_succ (rankAll_le fun tree htree => tree.height_eq_rank ▸ h tree htree)

end ExprLang.Tree
