import ExprLang.Grammar.Expression

/-!
# Operators between operands

How an expression is bracketed, apart from what its operands are.

* `Skeleton`: operands with operators between them; `Skeleton.tree`: the tree it stands for.
* `Skeleton.Bracketed`: every operator stands where its neighbours leave it.
* **`Skeleton.eq_of_bracketed`**: operands and operators in a given order can be bracketed in one
  way at most, whatever the precedences are.
-/

namespace ExprLang

/-! ## Comparing operators -/

namespace Vocabulary

variable (v : Vocabulary)

/-- Whether an operator wins a tie. -/
def associatesLeft (kind : Kind) : Bool :=
  (v.operator? kind).any fun op => decide (op.associativity = .leftToRight)

/-- How tightly an operator binds an operand to its right. -/
def bindsRight (kind : Kind) : Nat := 2 * v.precedence kind + (v.associatesLeft kind).toNat

/-- How tightly an operator binds an operand to its left. -/
def bindsLeft (kind : Kind) : Nat := 2 * v.precedence kind

theorem bindsLeft_le_bindsRight (kind : Kind) : v.bindsLeft kind ≤ v.bindsRight kind :=
  Nat.le_add_right _ _

theorem bindsRight_le (kind : Kind) : v.bindsRight kind ≤ v.bindsLeft kind + 1 :=
  Nat.add_le_add_left (Bool.toNat_le _) _

/-- Of two neighbours the operator that binds the operand between them more tightly gets it. -/
theorem compareBinding_eq_gt_iff (outer incoming : Kind) :
    v.compareBinding outer incoming = .gt ↔ v.bindsLeft incoming < v.bindsRight outer := by
  have hbit := Bool.toNat_le (v.associatesLeft outer)
  unfold compareBinding bindsRight bindsLeft
  rcases hc : compare (v.precedence outer) (v.precedence incoming) with _ | _ | _
  · have hlt := Nat.compare_eq_lt.mp hc
    simp only [reduceCtorEq, false_iff]
    omega
  · have heq := Nat.compare_eq_eq.mp hc
    unfold associatesLeft
    rw [heq]
    cases v.operator? outer with
    | none => simp
    | some op => by_cases hl : op.associativity = .leftToRight <;> simp [hl]
  · have hgt := Nat.compare_eq_gt.mp hc
    simp only [true_iff]
    omega

end Vocabulary

/-! ## Skeletons -/

/-- An expression as far as its operators between operands go. -/
inductive Skeleton where
  | operand (tree : Tree)
  | node (operator : Token) (left right : Skeleton)

namespace Skeleton

/-- The tree of an expression. -/
def tree : Skeleton → Tree
  | operand tree => tree
  | node operator left right => Grammar.pair operator left.tree right.tree

/-- The first operand. -/
def first : Skeleton → Tree
  | operand tree => tree
  | node _ left _ => left.first

/-- The operators in order, each with the operand behind it. -/
def others : Skeleton → List (Token × Tree)
  | operand _ => []
  | node operator left right => left.others ++ (operator, right.first) :: right.others

/-- The operators in order. -/
def operators (k : Skeleton) : List Token := k.others.map Prod.fst

/-- The operators on the way from the root to the first operand. -/
def leftSpine : Skeleton → List Token
  | operand _ => []
  | node operator left _ => operator :: left.leftSpine

/-- The operators on the way from the root to the last operand. -/
def rightSpine : Skeleton → List Token
  | operand _ => []
  | node operator _ right => operator :: right.rightSpine

variable (v : Vocabulary)

/-- Every operator stands where it belongs: those on the left edge of its right operand are not
bound less tightly than it, and those on the right edge of its left operand are bound more
tightly. -/
def Bracketed : Skeleton → Prop
  | operand _ => True
  | node operator left right =>
    (∀ q ∈ right.leftSpine, v.compareBinding operator.kind q.kind ≠ .gt) ∧
      (∀ q ∈ left.rightSpine, v.compareBinding q.kind operator.kind = .gt) ∧
      Bracketed left ∧ Bracketed right

variable {v}

theorem operators_node (operator : Token) (left right : Skeleton) :
    (node operator left right).operators = left.operators ++ operator :: right.operators := by
  simp [operators, others]

theorem mem_operators {k : Skeleton} {q : Token} {operand : Tree} {xs ys : List (Token × Tree)}
    (h : k.others = xs ++ (q, operand) :: ys) : q ∈ k.operators := by
  simp [operators, h]

/-- What the left edge is not bound less tightly than, nothing inside is. -/
theorem le_bindsLeft_of_leftSpine {k : Skeleton} (h : k.Bracketed v) {n : Nat}
    (hn : ∀ q ∈ k.leftSpine, n ≤ v.bindsLeft q.kind) :
    ∀ q ∈ k.operators, n ≤ v.bindsLeft q.kind := by
  induction k generalizing n with
  | operand => exact List.forall_mem_nil _
  | node operator left right ihl ihr =>
    obtain ⟨hright, -, hl, hr⟩ := h
    obtain ⟨hroot, hleft⟩ := List.forall_mem_cons.mp hn
    rw [operators_node, List.forall_mem_append, List.forall_mem_cons]
    refine ⟨ihl hl hleft, hroot, ihr hr fun q hq => ?_⟩
    have hle := hright q hq
    rw [ne_eq, v.compareBinding_eq_gt_iff, Nat.not_lt] at hle
    exact Nat.le_trans hroot (Nat.le_trans (v.bindsLeft_le_bindsRight _) hle)

/-- What the right edge is bound more tightly than, everything inside is. -/
theorem lt_bindsRight_of_rightSpine {k : Skeleton} (h : k.Bracketed v) {n : Nat}
    (hn : ∀ q ∈ k.rightSpine, n < v.bindsRight q.kind) :
    ∀ q ∈ k.operators, n < v.bindsRight q.kind := by
  induction k generalizing n with
  | operand => exact List.forall_mem_nil _
  | node operator left right ihl ihr =>
    obtain ⟨-, hleft, hl, hr⟩ := h
    obtain ⟨hroot, hright⟩ := List.forall_mem_cons.mp hn
    rw [operators_node, List.forall_mem_append, List.forall_mem_cons]
    refine ⟨ihl hl fun q hq => ?_, hroot, ihr hr hright⟩
    have hlt := (v.compareBinding_eq_gt_iff _ _).mp (hleft q hq)
    have hle := v.bindsRight_le operator.kind
    omega

/-- Of two operators not both can be the root above the other. -/
theorem not_crossing {p q : Token} {l r l' r' : Skeleton} (h : (node p l r).Bracketed v)
    (h' : (node q l' r').Bracketed v) (hq : q ∈ r.operators) (hp : p ∈ l'.operators) : False := by
  have hle : v.bindsRight p.kind ≤ v.bindsLeft q.kind := by
    refine le_bindsLeft_of_leftSpine h.2.2.2 (fun q hq => ?_) q hq
    exact Nat.not_lt.mp (mt (v.compareBinding_eq_gt_iff _ _).mpr (h.1 q hq))
  have hlt : v.bindsLeft q.kind < v.bindsRight p.kind := by
    refine lt_bindsRight_of_rightSpine h'.2.2.1 (fun p hp => ?_) p hp
    exact (v.compareBinding_eq_gt_iff _ _).mp (h'.2.1 p hp)
  omega

/-- **There is one way to bracket at most.** -/
theorem eq_of_bracketed {k k' : Skeleton} (h : k.Bracketed v) (h' : k'.Bracketed v)
    (hfirst : k.first = k'.first) (hothers : k.others = k'.others) : k = k' := by
  induction k generalizing k' with
  | operand tree =>
    cases k' with
    | operand => exact congrArg operand hfirst
    | node => simp [others] at hothers
  | node p l r ihl ihr =>
    cases k' with
    | operand => simp [others] at hothers
    | node q l' r' =>
      have hl : l.others = l'.others := by
        rcases List.append_eq_append_iff.mp hothers with
          ⟨_ | ⟨e, between⟩, hl', hr⟩ | ⟨_ | ⟨e, between⟩, hl, hr'⟩
        · rw [hl', List.append_nil]
        · -- `p` stands in front of `q`
          obtain ⟨rfl, hq⟩ := List.cons.inj hr
          exact (not_crossing h h' (mem_operators hq) (mem_operators hl')).elim
        · rw [hl, List.append_nil]
        · obtain ⟨rfl, hp⟩ := List.cons.inj hr'
          exact (not_crossing h' h (mem_operators hp) (mem_operators hl)).elim
      rw [others, others, hl] at hothers
      obtain ⟨hroot, hr⟩ := List.cons.inj (List.append_cancel_left hothers)
      obtain ⟨rfl, hfirst'⟩ := Prod.mk.inj hroot
      rw [ihl h.2.2.1 h'.2.2.1 hfirst hl, ihr h.2.2.2 h'.2.2.2 hfirst' hr]

end Skeleton

end ExprLang
