import ExprLang.Proofs.Precedence.Operands
import ExprLang.Proofs.Precedence.Skeleton

/-!
# What climbing builds

Precedence climbing compares an operator with the nearest one that waits for an operand, and yet
all operators of an expression end up where they belong.

* `Chained`: operands with operators between them, token by token.
* `Shaped`: a tree of such tokens that is bracketed as it should be, to the right of `previous`.
* **`Reads.shaped`**: whatever the rules read is. The left edge of the tree may not be left to
  `previous`; the right edge binds what comes next no less tightly than `previous` does.
-/

namespace ExprLang.Grammar

variable {g : Grammar} {scopes : Scopes}

/-! ## Operands with operators between them -/

/-- The tokens are an operand and, behind operators, others; these are their trees. -/
inductive Chained (g : Grammar) (scopes : Scopes) :
    List Token → Tree → List (Token × Tree) → Prop
  | single {xs : List Token} {x : Tree} (operand : ReadsOperand g scopes xs x) :
      Chained g scopes xs x []
  | join {operator : Token} {xs ys : List Token} {x y : Tree} {others : List (Token × Tree)}
      (first : ReadsOperand g scopes xs x) (kind : operator.kind ∈ infixKinds)
      (rest : Chained g scopes ys y others) :
      Chained g scopes (xs ++ operator :: ys) x ((operator, y) :: others)

theorem Chained.append {operator : Token} {xs ys : List Token} {x y : Tree}
    {others others' : List (Token × Tree)} (h : Chained g scopes xs x others)
    (kind : operator.kind ∈ infixKinds) (h' : Chained g scopes ys y others') :
    Chained g scopes (xs ++ operator :: ys) x (others ++ (operator, y) :: others') := by
  induction h with
  | single operand => exact .join operand kind h'
  | join first kind' _ ih =>
    rw [List.append_assoc]
    exact .join first kind' ih

/-! ## What stands behind an operand -/

theorem yields_eq_true_iff {previous : Option Token} {incoming : Token} :
    g.yields previous incoming = true ↔
      ∃ p ∈ previous, g.vocabulary.compareBinding p.kind incoming.kind = .gt := by
  simp [yields, Option.any_eq_true]

theorem Continues.not_ends {inParen : Bool} {token : Token} (h : g.Continues inParen token) :
    ¬ g.Ends inParen token := by
  rintro ⟨previous, hend⟩
  obtain ⟨previous', hgo⟩ := h
  rw [afterOperand_eq_ok hend] at hgo
  cases hgo

theorem Ends.terminates {inParen : Bool} {token : Token} (h : g.Ends inParen token) :
    Terminates inParen token := by
  obtain ⟨previous, h⟩ := h
  unfold afterOperand at h
  unfold Terminates
  split at h
  all_goals first
    | assumption
    | cases h
    | (split at h <;> cases h)

/-! ## Trees of expressions -/

/-- The tokens are the operands and operators of the skeleton, which is bracketed as it should be
and stands for the tree. -/
structure Outlines (g : Grammar) (scopes : Scopes) (tokens : List Token) (tree : Tree)
    (k : Skeleton) : Prop where
  tree : k.tree = tree
  chained : Chained g scopes tokens k.first k.others
  bracketed : k.Bracketed g.vocabulary

/-- `previous` does not get the first operand of an operator on the left edge. -/
def LeavesLeft (g : Grammar) (previous : Option Token) (k : Skeleton) : Prop :=
  ∀ p ∈ previous, ∀ q ∈ k.leftSpine, g.vocabulary.compareBinding p.kind q.kind ≠ .gt

/-- The operators on the right edge get their last operand, and not the one that comes next. -/
def KeepsRight (g : Grammar) (next : Token) (k : Skeleton) : Prop :=
  ∀ q ∈ k.rightSpine, g.vocabulary.compareBinding q.kind next.kind = .gt

/-- The tokens in front of `next` stand for the tree to the right of `previous`: the expression ends
there, or it is the turn of `previous`. -/
def Shaped (g : Grammar) (scopes : Scopes) (previous : Option Token) (inParen : Bool)
    (tokens : List Token) (next : Token) (tree : Tree) : Prop :=
  ∃ k, Outlines g scopes tokens tree k ∧ LeavesLeft g previous k ∧
    (g.Ends inParen next ∨ g.yields previous next = true ∧ KeepsRight g next k)

/-- What is said of the phrases that join operands. What extends an expression does so if that is
shaped, and its right edge leaves it an operator that goes on with it. -/
def PhraseShaped (g : Grammar) (scopes : Scopes) (tokens : List Token) (next : Token)
    (tree : Tree) : Phrase → Prop
  | .operand | .signed => True
  | .binding previous inParen => Shaped g scopes previous inParen tokens next tree
  | .extension previous inParen left =>
    ∀ xs k, Outlines g scopes xs left k → LeavesLeft g previous k →
      (g.Continues inParen (firstOf tokens next) → KeepsRight g (firstOf tokens next) k) →
      Shaped g scopes previous inParen (xs ++ tokens) next tree

/-- An operator between two skeletons that leave it their inner operands. -/
theorem Outlines.node {operator : Token} {xs ys : List Token} {left right : Tree}
    {l r : Skeleton} (hl : Outlines g scopes xs left l) (hr : Outlines g scopes ys right r)
    (kind : operator.kind ∈ infixKinds) (hkeep : KeepsRight g operator l)
    (hleave : LeavesLeft g (some operator) r) :
    Outlines g scopes (xs ++ operator :: ys) (pair operator left right)
      (.node operator l r) where
  tree := by rw [Skeleton.tree, hl.tree, hr.tree]
  chained := hl.chained.append kind hr.chained
  bracketed := ⟨hleave operator rfl, hkeep, hl.bracketed, hr.bracketed⟩

/-- **Phrases are bracketed as they should be.** An operator is compared with `previous` alone when
it comes in. It keeps what stands to its right from the operators further out because its own right
operand, before it was handed back, was compared with it in turn. -/
theorem Reads.shaped (hg : g.StandardPositions) {phrase : Phrase} {room : Nat}
    {tokens : List Token} {next : Token} {tree : Tree}
    (h : Reads g scopes phrase room tokens next tree) (hle : room ≤ g.maxDepth) :
    PhraseShaped g scopes tokens next tree phrase := by
  induction h with
  | literal | symbol | group | sign | plain | trailed => trivial
  | binding first _ _ iho =>
    have hle := Nat.le_of_succ_le hle
    exact iho hle _ (.operand _) ⟨rfl, .single (first.readsOperand hg hle), trivial⟩
      (fun _ _ => List.forall_mem_nil _) fun _ => List.forall_mem_nil _
  | ends stop =>
    intro xs k hk hleft _
    rw [List.append_nil]
    exact ⟨k, hk, hleft, .inl stop⟩
  | yields infix_ _ looser =>
    intro xs k hk hleft hright
    rw [List.append_nil]
    exact ⟨k, hk, hleft, .inr ⟨looser, hright infix_⟩⟩
  | @extend _ previous inParen operator next ys zs _ _ _ infix_ _ tighter _ _ _ ihr iho =>
    intro xs k hk hleft hright
    obtain ⟨r, hr, hrleft, hrnext⟩ := ihr hle
    have hnode := hk.node hr (hg.mem_infixKinds infix_) (hright infix_) hrleft
    have hshaped := iho hle _ _ hnode ?_ ?_
    · rw [List.append_assoc, List.cons_append] at hshaped
      exact hshaped
    · -- `previous` has left the operator to this expression
      intro p hp
      refine List.forall_mem_cons.mpr ⟨fun hgt => ?_, hleft p hp⟩
      rw [yields_eq_true_iff.mpr ⟨p, hp, hgt⟩] at tighter
      cases tighter
    · -- what goes on behind the right operand was left by it to the operator
      intro hgo
      obtain ⟨hyields, hkeeps⟩ := hrnext.resolve_left hgo.not_ends
      obtain ⟨p, hp, hgt⟩ := yields_eq_true_iff.mp hyields
      cases hp
      exact List.forall_mem_cons.mpr ⟨hgt, hkeeps⟩

end ExprLang.Grammar
