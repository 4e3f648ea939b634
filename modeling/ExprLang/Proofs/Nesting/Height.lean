import ExprLang.Proofs.Nesting.Room

/-!
# How tall an expression may grow

The nesting limit stands in two places: a sign or a parenthesis goes a level down, and an operator
between two operands is refused if it is taller than the limit. A sign costs a level but is not
refused for its height, so signs in front of a parenthesis come on top of what the operators inside
may reach, and the limit does not bound the height of an expression.

* `outline_check`: a type check leaves all heights as they are.
* `Phrase.tallest`, **`Reads.height_le_tallest`**: how tall a phrase may grow with so much room.
* `Reads.infix_low`: the operators between two operands stay below the limit.
* **`height_of_expression`**: the bound for whole expressions, less than twice the limit.
* **`height_of_expression_not_limited`**: an expression that is taller than the limit.
-/

namespace ExprLang

namespace Tree

/-- Whether a node is an operator between two operands. -/
def isInfix : Tree → Bool
  | binary .. | assignment .. => true
  | _ => false

mutual

theorem rank_check (table : TypingTable) : ∀ tree : Tree, (tree.check table).tree.rank = tree.rank
  | literal .. | reference .. | declaration .. | empty => rfl
  | unary operator old operand => by
    rw [check, rank, rank, rank_check table operand]
  | binary operator old left right => by
    rw [check, rank, rank, rank_check table left]
    split <;> simp only [rank_check table right]
  | assignment operator old target value => by
    rw [check, rank, rank, rank_check table target]
    split <;> simp only [rank_check table value]
  | block statements => by
    rw [check, rank, rank, rankAll_checkAll table statements]

theorem rankAll_checkAll (table : TypingTable) :
    ∀ trees : List Tree, rankAll (checkAll table trees).trees = rankAll trees
  | [] => rfl
  | tree :: rest => by
    rw [checkAll]
    split <;> simp only [rankAll, rank_check table tree, rankAll_checkAll table rest]

end

/-- What a type check leaves of a node: whether it is an operator between two operands, and its
height. -/
def outline (node : Tree) : Bool × Nat := (node.isInfix, node.rank)

theorem outline_check (table : TypingTable) (tree : Tree) :
    (tree.check table).tree.outline = tree.outline := by
  unfold outline
  rw [rank_check]
  cases tree <;> rfl

mutual

theorem outlines_check (table : TypingTable) :
    ∀ tree : Tree, (tree.check table).tree.preorder.map outline = tree.preorder.map outline
  | literal .. | reference .. | declaration .. | empty => rfl
  | unary operator old operand => by
    have h := outline_check table (unary operator old operand)
    rw [check] at h ⊢
    rw [preorder, preorder, List.map_cons, List.map_cons, h, outlines_check table operand]
  | binary operator old left right => by
    have h := outline_check table (binary operator old left right)
    rw [check] at h ⊢
    rw [preorder, preorder, List.map_cons, List.map_cons, h, List.map_append, List.map_append,
      outlines_check table left]
    split <;> simp only [outlines_check table right]
  | assignment operator old target value => by
    have h := outline_check table (assignment operator old target value)
    rw [check] at h ⊢
    rw [preorder, preorder, List.map_cons, List.map_cons, h, List.map_append, List.map_append,
      outlines_check table target]
    split <;> simp only [outlines_check table value]
  | block statements => by
    have h := outline_check table (block statements)
    rw [check] at h ⊢
    rw [preorder, preorder, List.map_cons, List.map_cons, h, outlinesAll_checkAll table statements]

theorem outlinesAll_checkAll (table : TypingTable) :
    ∀ trees : List Tree,
      (preorderAll (checkAll table trees).trees).map outline = (preorderAll trees).map outline
  | [] => rfl
  | tree :: rest => by
    rw [checkAll]
    split <;> simp only [preorderAll, List.map_append, outlines_check table tree,
      outlinesAll_checkAll table rest]

end

/-- Every operator between two operands is at most so tall. -/
def InfixLow (limit : Nat) (tree : Tree) : Prop :=
  ∀ node ∈ tree.preorder, node.isInfix = true → node.height ≤ limit

theorem infixLow_check {limit : Nat} {table : TypingTable} {tree : Tree} (h : InfixLow limit tree) :
    InfixLow limit (tree.check table).tree := by
  intro node hnode hinfix
  have hmem := List.mem_map_of_mem (f := outline) hnode
  rw [outlines_check, List.mem_map] at hmem
  obtain ⟨node', hnode', hsame⟩ := hmem
  obtain ⟨hi, hr⟩ := Prod.mk.inj hsame
  rw [height_eq_rank, ← hr, ← height_eq_rank]
  exact h node' hnode' (hi.trans hinfix)

end Tree

namespace Grammar

variable {g : Grammar}

/-! ## Phrases -/

/-- How tall a phrase may grow with so much room. -/
def Phrase.tallest (limit room : Nat) : Phrase → Nat
  | .operand | .signed => if room < 3 then room + 1 else max (room + 1) (limit + (room - 3))
  | .binding .. => if room < 2 then room else max room (limit + (room - 4))
  | .extension _ _ left => if room = 0 then left.height else max left.height limit

/-- **With so much room a phrase grows no taller**: a sign adds a level, and only three levels
further down there is room for an operator between two operands. -/
theorem Reads.height_le_tallest (hg : g.StandardPositions) {scopes : Scopes} {phrase : Phrase}
    {room : Nat} {tokens : List Token} {next : Token} {tree : Tree}
    (h : Reads g scopes phrase room tokens next tree) :
    tree.height ≤ phrase.tallest g.maxDepth room := by
  induction h with
  | literal | symbol =>
    rw [Tree.height_eq_rank, Tree.rank, Phrase.tallest]
    split <;> omega
  | group _ _ _ ih =>
    simp only [Phrase.tallest] at ih ⊢
    split at ih <;> split <;> omega
  | sign _ _ ih =>
    rw [Tree.height_unary]
    simp only [Phrase.tallest] at ih ⊢
    split at ih <;> split <;> omega
  | plain _ _ _ ih => exact ih
  | trailed _ _ after _ =>
    rw [hg.isAfter] at after
    cases after
  | binding _ _ ih ih' =>
    simp only [Phrase.tallest] at ih ih' ⊢
    split at ih' <;> split at ih <;> split <;> omega
  | @ends room | @yields room =>
    simp only [Phrase.tallest]
    split
    · exact Nat.le_refl _
    · exact Nat.le_max_left _ _
  | @extend room _ _ _ _ _ _ _ _ _ _ _ _ operand low _ _ ih =>
    cases operand
    simp only [Phrase.tallest, height_pair, if_neg (Nat.succ_ne_zero _)] at ih ⊢
    omega

/-- The operators between two operands in a phrase are no taller than the limit, if those in what
it extends are. -/
def Phrase.StaysLow (limit : Nat) (tree : Tree) : Phrase → Prop
  | .operand | .signed | .binding .. => tree.InfixLow limit
  | .extension _ _ left => left.InfixLow limit → tree.InfixLow limit

theorem infixLow_leaf {limit : Nat} {tree : Tree} (hp : tree.preorder = [tree])
    (hi : tree.isInfix = false) : tree.InfixLow limit := by
  intro node hnode hinfix
  rw [hp, List.mem_singleton] at hnode
  rw [hnode, hi] at hinfix
  cases hinfix

theorem infixLow_unary {limit : Nat} {operator : Token} {type : Option DataType} {tree : Tree}
    (h : tree.InfixLow limit) : (Tree.unary operator type tree).InfixLow limit := by
  intro node hnode hinfix
  rw [Tree.preorder, List.mem_cons] at hnode
  rcases hnode with rfl | hnode
  · cases hinfix
  · exact h node hnode hinfix

theorem infixLow_pair {limit : Nat} {operator : Token} {left right : Tree}
    (hl : left.InfixLow limit) (hr : right.InfixLow limit)
    (h : 1 + max left.height right.height ≤ limit) :
    (pair operator left right).InfixLow limit := by
  intro node hnode hinfix
  have hp : (pair operator left right).preorder =
      pair operator left right :: (left.preorder ++ right.preorder) := by
    unfold pair
    split <;> rw [Tree.preorder]
  rw [hp, List.mem_cons, List.mem_append] at hnode
  rcases hnode with rfl | hnode | hnode
  · rwa [height_pair]
  · exact hl node hnode hinfix
  · exact hr node hnode hinfix

/-- **Every operator between two operands is checked against the limit.** -/
theorem Reads.staysLow {scopes : Scopes} {phrase : Phrase} {room : Nat} {tokens : List Token}
    {next : Token} {tree : Tree} (h : Reads g scopes phrase room tokens next tree) :
    phrase.StaysLow g.maxDepth tree := by
  induction h with
  | literal | symbol => exact infixLow_leaf rfl rfl
  | group _ _ _ ih | plain _ _ _ ih => exact ih
  | sign _ _ ih | trailed _ _ _ ih => exact infixLow_unary ih
  | binding _ _ ih ih' => exact ih' ih
  | ends | yields => exact id
  | extend _ _ _ _ low _ ih ih' => exact fun hleft => ih' (infixLow_pair hleft ih low)

/-! ## Expressions -/

/-- The value of a run, if it succeeds. -/
def valueOf {ε σ α : Type} : EStateM.Result ε σ α → Option α
  | .ok a _ => some a
  | .error _ _ => none

theorem exists_ok_of_valueOf {ε σ α β : Type} {r : EStateM.Result ε σ α} {f : α → β} {b : β}
    (h : (valueOf r).map f = some b) : ∃ a t, r = .ok a t ∧ f a = b := by
  rcases r with ⟨a, t⟩ | ⟨e, t⟩
  · exact ⟨a, t, rfl, Option.some.inj h⟩
  · cases h

theorem exists_of_valueOf {ε σ α β : Type} {r : EStateM.Result ε σ (Option α)} {f : α → β} {b : β}
    (h : (valueOf r).map (Option.map f) = some (some b)) :
    ∃ a t, r = .ok (some a) t ∧ f a = b := by
  obtain ⟨_ | a, t, hr, hf⟩ := exists_ok_of_valueOf h
  · cases hf
  · exact ⟨a, t, hr, Option.some.inj hf⟩

/-- The run succeeds, and passes the test. -/
def succeeds {ε σ α : Type} (test : α → σ → Bool) : EStateM.Result ε σ α → Bool
  | .ok a t => test a t
  | .error _ _ => false

theorem exists_of_succeeds {ε σ α : Type} {test : α → σ → Bool} {r : EStateM.Result ε σ α}
    (h : succeeds test r = true) : ∃ a t, r = .ok a t ∧ test a t = true := by
  rcases r with ⟨a, t⟩ | ⟨e, t⟩
  · exact ⟨a, t, rfl, h⟩
  · cases h

theorem expression_eq {s : ParseState} :
    g.expression s = g.expressionIn (g.maxDepth - s.depth) s := rfl

/-- The sign of a sum in parentheses is not refused, though it makes the expression taller than the
limit. -/
theorem exists_taller_than_limit : ∃ tree t,
    (standard .standard .standard 5).expression
      ((standard .standard .standard 5).start (.ofString "-(1+1+1+1+1);")) = .ok (some tree) t ∧
    tree.height = 6 := by
  obtain ⟨tree, t, ht, hrank⟩ := exists_of_valueOf (f := Tree.rank) (b := 6) <|
    show (valueOf ((standard .standard .standard 5).expression
      ((standard .standard .standard 5).start (.ofString "-(1+1+1+1+1);")))).map
        (Option.map Tree.rank) = some (some 6) by decide +kernel
  exact ⟨tree, t, ht, tree.height_eq_rank.trans hrank⟩

/-- **How tall an expression may grow.** Whatever stands in front of it, every operator between two
operands is at most as tall as the limit, but the whole expression may be less than twice as
tall. -/
theorem height_of_expression (typing : TypingTable) (maxDepth : Nat) (s t : ParseState)
    (tree : Tree)
    (h : (standard .standard typing maxDepth).expression s = .ok (some tree) t) :
    tree.height ≤ maxDepth + (maxDepth - 4) ∧
      ∀ node ∈ tree.preorder, node.isInfix = true → node.height ≤ maxDepth := by
  have hg := (isStandard_standard typing maxDepth).positions
  have hmax : (standard .standard typing maxDepth).maxDepth = maxDepth := rfl
  rw [expression_eq, hmax] at h
  obtain ⟨hroom, ⟨tokens, token, read, checked, hr, -, -, hreads, hcheck⟩ | ⟨token, hr, -⟩ |
    ⟨hr, -⟩⟩ := reads_of_expressionIn h
  · cases hr
    have htree : (read.check typing).tree = tree := congrArg Checked.tree hcheck
    have hlow : read.InfixLow maxDepth := hreads.staysLow
    have htall := hreads.height_le_tallest hg
    rw [← htree]
    refine ⟨?_, Tree.infixLow_check hlow⟩
    rw [Tree.height_eq_rank, Tree.rank_check, ← Tree.height_eq_rank]
    simp only [Phrase.tallest, hmax] at htall
    split at htall <;> omega
  · cases hr
    refine ⟨?_, infixLow_leaf rfl rfl⟩
    rw [Tree.height_eq_rank, Tree.rank]
    omega
  · cases hr

theorem height_of_expression_signed : ∃ tree t,
    (standard .standard .standard 5).expression
      ((standard .standard .standard 5).start (.ofString "-(1+1+1+1+1);")) = .ok (some tree) t ∧
    tree.height ≤ 5 + (5 - 4) ∧
      ∀ node ∈ tree.preorder, node.isInfix = true → node.height ≤ 5 := by
  obtain ⟨tree, t, ht, -⟩ := exists_taller_than_limit
  exact ⟨tree, t, ht, height_of_expression _ _ _ _ _ ht⟩

/-- The limit itself is no bound of the height. -/
theorem height_of_expression_not_limited :
    ¬∀ (typing : TypingTable) (maxDepth : Nat) (s t : ParseState) (tree : Tree),
      (standard .standard typing maxDepth).expression s = .ok (some tree) t →
        tree.height ≤ maxDepth := by
  intro h
  obtain ⟨tree, t, ht, htall⟩ := exists_taller_than_limit
  have hlimit := h _ _ _ _ _ ht
  rw [htall] at hlimit
  exact absurd hlimit (by decide)

end Grammar

end ExprLang
