import ExprLang.Proofs.Language.Derivation

/-!
# Where operands and expressions end

The tokens say where an operand ends: none is the beginning of a longer one. An expression goes on
for as long as operators follow its operands.

* **`Derives.eq_of_append_eq`**: two beginnings of the same tokens that are both operands, or both
  expressions that no operator follows, are the same.
* `chain`: operators and operands in order; `IsChain.derives`: behind an operand they make an
  expression.
-/

namespace ExprLang

/-- What may follow a part so that it cannot go on: anything behind an operand, and no operator
behind an expression. -/
def Closes : Part → List Token → Prop
  | .primary, _ | .operand, _ => True
  | .expression, rest => ∀ token ∈ rest.head?, token.kind ∉ infixKinds
  | _, _ => False

/-- The first token of a primary says which one it is. -/
theorem Derives.primary_cases {xs us ys : List Token} {token : Token} (h : Derives .primary xs)
    (heq : token :: ys = xs ++ us) :
    (token.kind ≠ .openParen ∧ token.kind ∉ signKinds ∧ xs = [token]) ∨
      (token.kind = .openParen ∧ ∃ inner closing, xs = token :: (inner ++ [closing]) ∧
        Derives .expression inner ∧ closing.kind = .closeParen) := by
  cases h with
  | literal kind =>
    obtain ⟨rfl, -⟩ := List.cons.inj heq
    have hall : ∀ k ∈ literalKinds, k ≠ .openParen ∧ k ∉ signKinds := by decide
    exact .inl ⟨(hall _ kind).1, (hall _ kind).2, rfl⟩
  | name kind =>
    obtain ⟨rfl, -⟩ := List.cons.inj heq
    rw [kind]
    exact .inl ⟨by decide, by decide, rfl⟩
  | group opens content closes =>
    obtain ⟨rfl, -⟩ := List.cons.inj heq
    exact .inr ⟨opens, _, _, rfl, content, closes⟩

theorem Derives.primary_ne_sign {xs us ys : List Token} {operator : Token}
    (h : Derives .primary xs) (hk : operator.kind ∈ signKinds) :
    operator :: ys ≠ xs ++ us := by
  intro heq
  rcases h.primary_cases heq with ⟨-, hnot, -⟩ | ⟨opens, -⟩
  · exact hnot hk
  · rw [opens] at hk
    exact absurd hk (by decide)

theorem closes_of_not_mem {token : Token} (h : token.kind ∉ infixKinds) (rest : List Token) :
    Closes .expression (token :: rest) := by
  rintro _ ⟨⟩
  exact h

/-- **No operand is the beginning of another**, and an expression that no operator follows is not
the beginning of another either. -/
theorem Derives.eq_of_append_eq {part : Part} {xs ys us ws : List Token} (h : Derives part xs)
    (h' : Derives part ys) (hu : Closes part us) (hw : Closes part ws)
    (heq : xs ++ us = ys ++ ws) : xs = ys := by
  induction h generalizing ys us ws with
  | literal kind =>
    rcases h'.primary_cases heq with ⟨-, -, rfl⟩ | ⟨opens, -⟩
    · rfl
    · rw [opens] at kind
      exact absurd kind (by decide)
  | name kind =>
    rcases h'.primary_cases heq with ⟨-, -, rfl⟩ | ⟨opens, -⟩
    · rfl
    · rw [opens] at kind
      cases kind
  | group opens _ closes ih =>
    rcases h'.primary_cases heq with ⟨hne, -⟩ | ⟨-, inner, closing, rfl, content', closes'⟩
    · exact absurd opens hne
    · rw [List.cons_append, List.cons_append, List.append_assoc, List.append_assoc] at heq
      have hrest := (List.cons.inj heq).2
      have hclose : ∀ {token : Token}, token.kind = .closeParen → token.kind ∉ infixKinds :=
        fun h => by rw [h]; decide
      obtain rfl := ih content' (closes_of_not_mem (hclose closes) _)
        (closes_of_not_mem (hclose closes') _) hrest
      rw [(List.cons.inj (List.append_cancel_left hrest)).1]
  | plain primary ih =>
    cases h' with
    | plain primary' => exact ih primary' trivial trivial heq
    | sign kind _ => exact absurd heq.symm (primary.primary_ne_sign kind)
  | sign kind _ ih =>
    cases h' with
    | plain primary' => exact absurd heq (primary'.primary_ne_sign kind)
    | sign _ operand' =>
      obtain ⟨rfl, hrest⟩ := List.cons.inj heq
      rw [ih operand' trivial trivial hrest]
  | single _ ih =>
    obtain ⟨first, others, rfl, hfirst, hothers⟩ := h'.exists_operand
    rw [List.append_assoc] at heq
    obtain rfl := ih hfirst trivial trivial heq
    rw [List.append_cancel_left heq] at hu
    rcases hothers with rfl | ⟨operator, rest, rfl, kind, -⟩
    · rw [List.append_nil]
    · exact absurd kind (hu _ rfl)
  | join _ kind _ ih ih' =>
    obtain ⟨first, others, rfl, hfirst, hothers⟩ := h'.exists_operand
    rw [List.append_assoc, List.append_assoc] at heq
    obtain rfl := ih hfirst trivial trivial heq
    have htail := List.append_cancel_left heq
    rcases hothers with rfl | ⟨operator, rest, rfl, -, hrest⟩
    · rw [List.nil_append] at htail
      rw [← htail] at hw
      exact absurd kind (hw _ rfl)
    · obtain ⟨rfl, hrest'⟩ := List.cons.inj htail
      rw [ih' hrest hu hw hrest']
  | _ => exact hu.elim

/-! ## Operators and operands in order -/

/-- Operators in order, each with the tokens of the operand behind it. -/
def chain : List (Token × List Token) → List Token
  | [] => []
  | (operator, operand) :: others => operator :: (operand ++ chain others)

/-- Every operator stands between operands, and every operand is one. -/
def IsChain (others : List (Token × List Token)) : Prop :=
  ∀ e ∈ others, e.1.kind ∈ infixKinds ∧ Derives .operand e.2

theorem IsChain.derives {first : List Token} {others : List (Token × List Token)}
    (hf : Derives .operand first) (ho : IsChain others) :
    Derives .expression (first ++ chain others) := by
  induction others generalizing first with
  | nil =>
    rw [chain, List.append_nil]
    exact .single hf
  | cons e others ih =>
    obtain ⟨⟨hk, hd⟩, ho⟩ := List.forall_mem_cons.mp ho
    exact .join hf hk (ih hd ho)

end ExprLang
