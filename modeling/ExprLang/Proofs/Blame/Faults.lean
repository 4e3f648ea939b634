import ExprLang.Proofs.Blame.Seen
import ExprLang.Proofs.Tree.Roots
import ExprLang.Proofs.Typing.Sound

/-!
# What a type check is blamed on

What stops the check of an expression is blamed on one of its tokens.

* `Untyped`: a declared name that waits for its type.
* `FaultAt`: a diagnostic that blames one of some tokens.
* **`Resolved.faultAt`**: so does what stops a check.
* `Reads.forall_roots`: the tokens of the tree are those of the phrase.
-/

namespace ExprLang

/-- The name is declared, and has no type. -/
def Untyped (scopes : Scopes) (name : Token) : Prop :=
  ∃ symbol, scopes.lookup name.value = some symbol ∧ symbol.type = none

/-- One of the tokens is blamed, be it as a name without a type. -/
def FaultAt (scopes : Scopes) (tokens : List Token) (d : Diagnostic) : Prop :=
  ∃ token ∈ tokens, d.line = token.line ∧
    (d.cause.isPlain = true ∨ d.cause = .undeterminedType token.value ∧ Untyped scopes token)

theorem FaultAt.mono {scopes : Scopes} {xs ys : List Token} {d : Diagnostic}
    (h : FaultAt scopes xs d) (hsub : xs ⊆ ys) : FaultAt scopes ys d := by
  obtain ⟨token, hmem, hd⟩ := h
  exact ⟨token, hsub hmem, hd⟩

variable {v : Vocabulary} {table : TypingTable} {scopes : Scopes} {d : Diagnostic}

/-! ## Operators -/

theorem unaryType_eq_error {operator : Token} {operand : Tree}
    (h : Tree.unaryType table operator operand = .error d) :
    operand.operandType = .error d ∨ d.cause.isPlain = true ∧ d.line = operator.line := by
  unfold Tree.unaryType at h
  rcases hx : operand.operandType with e | type <;> rw [hx] at h
  · exact .inl h
  · simp only [bind, Except.bind] at h
    split at h <;> cases h
    exact .inr ⟨rfl, rfl⟩

theorem binaryType_eq_error {operator : Token} {left right : Tree}
    (h : Tree.binaryType table operator left right = .error d) :
    left.operandType = .error d ∨ right.operandType = .error d ∨
      d.cause.isPlain = true ∧ d.line = operator.line := by
  unfold Tree.binaryType at h
  rcases hx : left.operandType with e | x <;> rw [hx] at h
  · exact .inl h
  · rcases hy : right.operandType with e | y <;> rw [hy] at h
    · exact .inr (.inl h)
    · simp only [bind, Except.bind] at h
      split at h <;> cases h
      exact .inr (.inr ⟨rfl, rfl⟩)

namespace Resolved

theorem faultAt_of_operandType {tree checked : Tree} (h : Resolved v scopes tree)
    (hc : tree.check table = ⟨checked, none⟩) (ho : checked.operandType = .error d) :
    FaultAt scopes tree.roots d := by
  cases h with
  | literal =>
    cases hc
    cases ho
  | @reference token symbol known =>
    cases hc
    unfold Tree.operandType at ho
    split at ho
    · cases ho
    · next hopen =>
      cases ho
      exact ⟨token, List.mem_singleton_self _, rfl, .inr ⟨rfl, symbol, known, hopen⟩⟩
  | unary =>
    obtain ⟨x, type, result, -, -, -, rfl⟩ := check_unary_eq hc
    cases ho
  | binary =>
    obtain ⟨l, r, x, y, result, -, -, -, -, -, rfl⟩ := check_binary_eq hc
    cases ho
  | assignment =>
    obtain ⟨l, r, x, y, result, -, -, -, -, -, rfl⟩ := check_assignment_eq hc
    cases ho

theorem faultAt_pair {operator : Token} {left right : Tree} {r : Checked}
    (hleft : Resolved v scopes left) (hright : Resolved v scopes right)
    (ihl : ∀ d, (left.check table).fault = some d → FaultAt scopes left.roots d)
    (ihr : ∀ d, (right.check table).fault = some d → FaultAt scopes right.roots d)
    (hr : (if (left.check table).fault.isSome then ⟨right, none⟩ else right.check table) = r)
    (h : Tree.faultOf (Tree.pairType table operator (left.check table) r) = some d) :
    FaultAt scopes (left.roots ++ operator :: right.roots) d := by
  have hxs : left.roots ⊆ left.roots ++ operator :: right.roots := List.subset_append_left _ _
  have hys : right.roots ⊆ left.roots ++ operator :: right.roots := fun _ hmem =>
    List.mem_append_right _ (List.mem_cons_of_mem _ hmem)
  rcases hp : Tree.pairType table operator (left.check table) r with e | type <;> rw [hp] at h
  · cases h
    unfold Tree.pairType at hp
    rcases hl : left.check table with ⟨l, _ | e⟩ <;> rw [hl] at hp hr
    · obtain rfl := hr
      rcases hr : right.check table with ⟨y, _ | e⟩ <;> simp only [hr] at hp
      · rcases binaryType_eq_error hp with ho | ho | ⟨hplain, hline⟩
        · exact (hleft.faultAt_of_operandType hl ho).mono hxs
        · exact (hright.faultAt_of_operandType hr ho).mono hys
        · exact ⟨operator, List.mem_append_right _ List.mem_cons_self, hline, .inl hplain⟩
      · cases hp
        exact (ihr _ (congrArg Checked.fault hr)).mono hys
    · cases hp
      exact (ihl _ (congrArg Checked.fault hl)).mono hxs
  · cases h

/-- **What stops the check of an expression is blamed on one of its tokens.** -/
theorem faultAt {tree : Tree} (h : Resolved v scopes tree)
    (hf : (tree.check table).fault = some d) : FaultAt scopes tree.roots d := by
  induction h generalizing d with
  | literal | reference => cases hf
  | @unary operator _ operand inner ih =>
    rw [Tree.check] at hf
    rcases hx : operand.check table with ⟨x, _ | e⟩ <;> simp only [hx] at hf
    · rcases hu : Tree.unaryType table operator x with e | type <;> rw [hu] at hf <;> cases hf
      rcases unaryType_eq_error hu with ho | ⟨hplain, hline⟩
      · exact (inner.faultAt_of_operandType hx ho).mono (List.subset_cons_self _ _)
      · exact ⟨operator, List.mem_cons_self, hline, .inl hplain⟩
    · cases hf
      exact (ih (congrArg Checked.fault hx)).mono (List.subset_cons_self _ _)
  | binary first second ihl ihr =>
    rw [Tree.check] at hf
    exact faultAt_pair first second (fun _ => ihl) (fun _ => ihr) rfl hf
  | assignment known _ source ih =>
    rw [Tree.check] at hf
    exact faultAt_pair (.reference known) source (fun _ hd => by cases hd) (fun _ => ih) rfl hf

end Resolved

namespace Grammar

variable {g : Grammar}

/-- What a phrase extends. -/
def Phrase.left? : Phrase → Option Tree
  | .extension _ _ left => some left
  | _ => none

/-- What holds of the tokens of a phrase, and of those of what it extends, holds of those of its
tree. -/
theorem Reads.forall_roots {P : Token → Prop} {phrase : Phrase} {room : Nat} {tokens : List Token}
    {next : Token} {tree : Tree} (h : Reads g scopes phrase room tokens next tree)
    (hleft : ∀ left ∈ phrase.left?, ∀ token ∈ left.roots, P token)
    (ht : ∀ token ∈ tokens, P token) :
    ∀ token ∈ tree.roots, P token := by
  induction h with
  | literal | symbol => exact ht
  | group _ _ _ ih =>
    exact ih nofun (List.forall_mem_append.mp (List.forall_mem_cons.mp ht).2).1
  | sign _ _ ih =>
    obtain ⟨hoperator, ht⟩ := List.forall_mem_cons.mp ht
    exact List.forall_mem_cons.mpr ⟨hoperator, ih nofun ht⟩
  | plain _ _ _ ih => exact ih nofun ht
  | trailed _ _ _ ih =>
    obtain ⟨ht, hoperator⟩ := List.forall_mem_append.mp ht
    exact List.forall_mem_cons.mpr ⟨List.forall_mem_singleton.mp hoperator, ih nofun ht⟩
  | binding _ _ ihf iho =>
    obtain ⟨hxs, hys⟩ := List.forall_mem_append.mp ht
    refine iho ?_ hys
    rintro _ ⟨⟩
    exact ihf nofun hxs
  | ends | yields => exact hleft _ rfl
  | extend _ _ _ _ _ _ ihr iho =>
    obtain ⟨hoperator, ht⟩ := List.forall_mem_cons.mp ht
    obtain ⟨hxs, hys⟩ := List.forall_mem_append.mp ht
    refine iho ?_ hys
    rintro _ ⟨⟩
    rw [roots_pair]
    refine List.forall_mem_append.mpr ⟨hleft _ rfl, ?_⟩
    exact List.forall_mem_cons.mpr ⟨hoperator, ihr nofun hxs⟩

end Grammar

end ExprLang
