import ExprLang.Proofs.Language.Accepts
import ExprLang.Proofs.Language.Sound

/-!
# Expressions are read where they stand

In front of an operand or an expression the rules of the standard language read it, but for
tolerated failures.

* `AcceptsSigned`, `AcceptsBinding`: what is said of the two nested rules.
* `accepts_climb`: climbing takes operators up to the end or one that is not left to it.
* **`accepts_nested`**: both rules, with any room for nested ones.
-/

namespace ExprLang.Grammar

variable {g : Grammar} {last : Token}

/-! ## Operands -/

theorem accepts_literal (hg : g.IsStandard) {token : Token} {tokens : List Token}
    (hk : token.kind ∈ literalKinds) :
    Accepts g last g.literal (token :: tokens) fun _ rest => tokens = rest := by
  refine .bind accepts_consume ?_
  rintro _ _ ⟨rfl, rfl⟩
  obtain ⟨type, ht⟩ := hg.exists_literalType hk
  rw [ht]
  exact .pure rfl

theorem accepts_symbol {token : Token} {tokens : List Token} :
    Accepts g last g.symbol (token :: tokens) fun _ rest => tokens = rest := by
  refine .bind accepts_consume ?_
  rintro _ _ ⟨rfl, rfl⟩
  refine .bind accepts_get ?_
  rintro s _ rfl
  split
  · exact .pure rfl
  · exact accepts_refuse rfl

/-- The rule reads an expression in parentheses. -/
def AcceptsGroup (g : Grammar) (last : Token) (group : ParseM Tree) : Prop :=
  ∀ opening tokens closing rest, Derives .expression tokens → closing.kind = .closeParen →
    Accepts g last group (opening :: (tokens ++ closing :: rest)) fun _ left => rest = left

theorem accepts_groupOf {content : ParseM (Option Tree)}
    (hc : ∀ tokens closing rest, Derives .expression tokens → closing.kind = .closeParen →
      Accepts g last content (tokens ++ closing :: rest) fun r left =>
        r.isSome = true ∧ closing :: rest = left) : AcceptsGroup g last (g.groupOf content) := by
  intro opening tokens closing rest hd hk
  refine .bind accepts_consume ?_
  rintro _ _ ⟨rfl, rfl⟩
  refine .bind (hc tokens closing rest hd hk) ?_
  rintro (_ | tree) _ ⟨hr, rfl⟩
  · cases hr
  · refine .bind (accepts_discard_expectOr hk) ?_
    rintro _ _ rfl
    refine .bind accepts_leave ?_
    rintro _ _ rfl
    exact .pure rfl

/-- The rule reads tokens and leaves others. -/
def Reaches (rest : List Token) (r : Option Tree) (left : List Token) : Prop :=
  r.isSome = true ∧ rest = left

theorem accepts_operandOf (hg : g.IsStandard) {group : ParseM Tree}
    (hgroup : AcceptsGroup g last group) {tokens : List Token} (h : Derives .primary tokens)
    (rest : List Token) : Accepts g last (g.operandOf group) (tokens ++ rest) (Reaches rest) := by
  refine .bind accepts_currentKind ?_
  rintro _ _ ⟨rfl, rfl⟩
  cases h with
  | literal hk =>
    rw [List.singleton_append, firstOf_cons, hg.positions.rule_eq, if_pos hk]
    exact .map (accepts_literal hg hk) fun _ _ h => ⟨rfl, h⟩
  | name hk =>
    rw [List.singleton_append, firstOf_cons, hg.positions.rule_eq, hk]
    exact .map accepts_symbol fun _ _ h => ⟨rfl, h⟩
  | group hk content hc =>
    rw [List.cons_append, firstOf_cons, hg.positions.rule_eq, hk, List.append_assoc,
      List.singleton_append]
    exact .map (hgroup _ _ _ _ content hc) fun _ _ h => ⟨rfl, h⟩

theorem accepts_trailedOf (hg : g.IsStandard) {group : ParseM Tree}
    (hgroup : AcceptsGroup g last group) {tokens : List Token} (h : Derives .primary tokens)
    (rest : List Token) : Accepts g last (g.trailedOf group) (tokens ++ rest) (Reaches rest) := by
  refine .bind (accepts_operandOf hg hgroup h rest) ?_
  rintro (_ | tree) _ ⟨hr, rfl⟩
  · cases hr
  · refine .bind accepts_currentKind ?_
    rintro _ _ ⟨rfl, rfl⟩
    rw [hg.positions.isAfter]
    exact .pure ⟨rfl, rfl⟩

/-- The rule for signed operands, with room for so many levels, reads them. -/
def AcceptsSigned (g : Grammar) (last : Token) (room : Nat) : Prop :=
  ∀ tokens rest, Derives .operand tokens →
    Accepts g last (g.signedIn room) (tokens ++ rest) (Reaches rest)

/-- The rule for operands joined by operators, with room for so many levels, reads them up to an
operator that `previous` does not leave to it. -/
def AcceptsBinding (g : Grammar) (last : Token) (room : Nat) : Prop :=
  ∀ previous inParen tokens rest, Derives .expression tokens →
    Terminates inParen (firstOf rest last) →
    Accepts g last (g.bindingIn room previous inParen) (tokens ++ rest) fun r left =>
      r.isSome = true ∧ ∃ others, Extends others ∧ others ++ rest = left ∧
        (previous = none → others = [])

theorem accepts_signedIn_zero (hg : g.IsStandard) : AcceptsSigned g last 0 := by
  intro tokens rest h
  rw [signedIn]
  refine .bind accepts_currentKind ?_
  rintro _ _ ⟨rfl, rfl⟩
  cases h with
  | plain h =>
    rw [hg.positions.isBefore_of_primary h]
    exact accepts_trailedOf hg (accepts_groupOf fun _ _ _ _ _ => accepts_exceedDepth) h rest
  | sign hk h =>
    rw [List.cons_append, firstOf_cons, hg.positions.isBefore, decide_eq_true hk]
    refine .bind (P := fun _ _ => True) (.map accepts_consume fun _ _ _ => trivial) ?_
    intro _ _ _
    exact accepts_exceedDepth

theorem accepts_signedIn_succ (hg : g.IsStandard) {room : Nat}
    (ihs : AcceptsSigned g last room) (ihb : AcceptsBinding g last room) :
    AcceptsSigned g last (room + 1) := by
  intro tokens rest h
  rw [signedIn]
  refine .bind accepts_currentKind ?_
  rintro _ _ ⟨rfl, rfl⟩
  cases h with
  | plain h =>
    rw [hg.positions.isBefore_of_primary h]
    refine accepts_trailedOf hg (accepts_groupOf fun tokens closing rest hd hk => ?_) h rest
    refine .bind accepts_deepen ?_
    rintro _ _ rfl
    refine (ihb none true tokens (closing :: rest) hd hk).mono ?_
    rintro r left ⟨hr, others, -, rfl, hnone⟩
    rw [hnone rfl]
    exact ⟨hr, rfl⟩
  | sign hk h =>
    rw [List.cons_append, firstOf_cons, hg.positions.isBefore, decide_eq_true hk]
    refine .bind accepts_consume ?_
    rintro _ _ ⟨rfl, rfl⟩
    refine .bind accepts_deepen ?_
    rintro _ _ rfl
    refine .bind (ihs _ rest h) ?_
    rintro (_ | tree) _ ⟨hr, rfl⟩
    · cases hr
    · refine .bind accepts_leave ?_
      rintro _ _ rfl
      exact .pure ⟨rfl, rfl⟩

/-! ## Operators between operands -/

theorem accepts_checkTarget {operator : Token} {target : Tree} {tokens : List Token} :
    Accepts g last (checkTarget operator target) tokens fun _ rest => tokens = rest := by
  unfold checkTarget
  split_ifs
  · unfold checkAssignable
    split
    · refine .bind accepts_get ?_
      rintro s _ rfl
      split
      · split
        · exact .pure rfl
        · exact accepts_refuse rfl
      · exact accepts_refuse rfl
    · exact accepts_refuse rfl
  · exact .pure rfl

/-- Climbing stops in front of what ends the expression, or of an operator that `previous` does not
leave to it. It ends by its own measure: the tree grows with every operator. -/
theorem accepts_climb (hg : g.IsStandard) {room : Nat} (ihb : AcceptsBinding g last room)
    {previous : Option Token} {inParen : Bool} {left : Tree} {height : Nat}
    {others rest : List Token} (h : Extends others)
    (hend : Terminates inParen (firstOf rest last)) :
    Accepts g last (g.climb (fun operator => g.bindingIn room (some operator) inParen) previous
      inParen left height) (others ++ rest) fun _ remaining =>
        ∃ others, Extends others ∧ others ++ rest = remaining ∧
          (previous = none → others = []) := by
  rw [climb]
  refine .bind accepts_beginRound ?_
  rintro _ _ rfl
  refine .bind accepts_lookahead ?_
  rintro _ _ ⟨rfl, rfl⟩
  refine .bind accepts_get ?_
  rintro s _ rfl
  rcases h with rfl | ⟨operator, operands, rfl, hk, hd⟩
  · rw [List.nil_append, afterOperand_of_terminates g hend]
    exact .pure ⟨[], .inl rfl, rfl, fun _ => rfl⟩
  · rw [List.cons_append, firstOf_cons, hg.positions.afterOperand_of_infix hk]
    refine .bind accepts_checkTarget ?_
    rintro _ _ rfl
    by_cases hy : g.yields previous operator = true
    · rw [if_pos hy]
      refine .pure ⟨operator :: operands, .inr ⟨_, _, rfl, hk, hd⟩, rfl, ?_⟩
      rintro rfl
      cases hy
    · rw [if_neg hy]
      refine .bind accepts_consume ?_
      rintro _ _ ⟨rfl, rfl⟩
      refine .bind (ihb (some operator) inParen operands rest hd hend) ?_
      rintro (_ | right) _ ⟨hr, others, ho, rfl, -⟩
      · cases hr
      · by_cases hlow : g.maxDepth < 1 + max height right.height
        · simp only [dif_pos hlow]
          exact accepts_exceedHeight
        · simp only [dif_neg hlow]
          -- the climb goes on with what the right operand left over
          exact accepts_climb hg ihb ho hend
termination_by g.maxDepth - height

theorem accepts_bindingIn_succ (hg : g.IsStandard) {room : Nat}
    (ihs : AcceptsSigned g last room) (ihb : AcceptsBinding g last room) :
    AcceptsBinding g last (room + 1) := by
  intro previous inParen tokens rest h hend
  unfold bindingIn
  refine .bind accepts_deepen ?_
  rintro _ _ rfl
  obtain ⟨xs, ys, rfl, hx, hy⟩ := h.exists_operand
  rw [List.append_assoc]
  refine .bind (ihs xs (ys ++ rest) hx) ?_
  rintro (_ | left) _ ⟨hr, rfl⟩
  · cases hr
  · refine .bind (accepts_climb hg ihb hy hend) ?_
    rintro tree _ ⟨others, ho, rfl, hnone⟩
    refine .bind accepts_leave ?_
    rintro _ _ rfl
    exact .pure ⟨rfl, others, ho, rfl, hnone⟩

theorem accepts_nested (hg : g.IsStandard) (room : Nat) :
    AcceptsSigned g last room ∧ AcceptsBinding g last room := by
  induction room with
  | zero =>
    refine ⟨accepts_signedIn_zero hg, fun previous inParen tokens rest _ _ => ?_⟩
    rw [bindingIn]
    exact accepts_exceedDepth
  | succ room ih =>
    exact ⟨accepts_signedIn_succ hg ih.1 ih.2, accepts_bindingIn_succ hg ih.1 ih.2⟩

end ExprLang.Grammar
