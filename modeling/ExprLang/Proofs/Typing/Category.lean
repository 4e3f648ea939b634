import ExprLang.Typing.Check

/-!
# Faults of the type check

* **`category_of_check`**: what stops a check is an error of meaning, as is what `unify` refuses.
-/

namespace ExprLang

theorem category_of_operandType {tree : Tree} {d : Diagnostic}
    (h : tree.operandType = .error d) : d.cause.category = .semantic := by
  unfold Tree.operandType at h
  split at h
  · cases h
  · split at h <;> cases h <;> rfl

theorem category_of_unaryType {table : TypingTable} {operator : Token} {operand : Tree}
    {d : Diagnostic} (h : Tree.unaryType table operator operand = .error d) :
    d.cause.category = .semantic := by
  unfold Tree.unaryType at h
  rcases ho : operand.operandType with e | type <;> rw [ho] at h
  · cases h
    exact category_of_operandType ho
  · simp only [bind, Except.bind] at h
    split at h <;> cases h
    rfl

theorem category_of_binaryType {table : TypingTable} {operator : Token} {left right : Tree}
    {d : Diagnostic} (h : Tree.binaryType table operator left right = .error d) :
    d.cause.category = .semantic := by
  unfold Tree.binaryType at h
  rcases hl : left.operandType with e | x <;> rw [hl] at h
  · cases h
    exact category_of_operandType hl
  · rcases hr : right.operandType with e | y <;> rw [hr] at h
    · cases h
      exact category_of_operandType hr
    · simp only [bind, Except.bind] at h
      split at h <;> cases h
      rfl

theorem category_of_pairType {table : TypingTable} {operator : Token} {left right : Checked}
    {d : Diagnostic} (hl : ∀ d, left.fault = some d → d.cause.category = .semantic)
    (hr : ∀ d, right.fault = some d → d.cause.category = .semantic)
    (h : Tree.faultOf (Tree.pairType table operator left right) = some d) :
    d.cause.category = .semantic := by
  rcases hp : Tree.pairType table operator left right with e | type <;> rw [hp] at h
  · cases h
    unfold Tree.pairType at hp
    split at hp
    · next hf =>
      cases hp
      exact hl _ hf
    · next hf =>
      cases hp
      exact hr _ hf
    · exact category_of_binaryType hp
  · cases h

mutual

theorem category_of_check {table : TypingTable} {d : Diagnostic} (tree : Tree)
    (h : (tree.check table).fault = some d) : d.cause.category = .semantic := by
  cases tree with
  | literal | reference | declaration | empty => cases h
  | unary operator old operand =>
    rw [Tree.check] at h
    rcases hf : (operand.check table).fault with _ | e
    · simp only [hf] at h
      rcases hu : Tree.unaryType table operator (operand.check table).tree with e | type <;>
        rw [hu] at h <;> cases h
      exact category_of_unaryType hu
    · simp only [hf] at h
      cases h
      exact category_of_check operand hf
  | binary operator old left right | assignment operator old left right =>
    rw [Tree.check] at h
    refine category_of_pairType (fun _ => category_of_check left) (fun d hd => ?_) h
    split at hd
    · cases hd
    · exact category_of_check right hd
  | block statements => exact category_of_checkAll statements h

theorem category_of_checkAll {table : TypingTable} {d : Diagnostic} (trees : List Tree)
    (h : (Tree.checkAll table trees).fault = some d) : d.cause.category = .semantic := by
  cases trees with
  | nil => cases h
  | cons tree rest =>
    rw [Tree.checkAll] at h
    rcases hf : (tree.check table).fault with _ | e
    · simp only [hf] at h
      exact category_of_checkAll rest h
    · simp only [hf] at h
      cases h
      exact category_of_check tree hf

end

theorem category_of_unify {declared received : Option DataType} {line : UInt32} {d : Diagnostic}
    (h : unify declared received line = .error d) : d.cause.category = .semantic := by
  unfold unify at h
  split at h
  · cases h
    rfl
  · cases h
  · cases h
    rfl
  · split at h <;> cases h
    rfl

end ExprLang
