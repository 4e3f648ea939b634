import ExprLang.Proofs.Nesting.Height
import ExprLang.Proofs.Nesting.Levels

/-!
# The depth is balanced and bounded

What the rules for statements and blocks count, and with it all rules.

* `counts_blockPart`, `counts_unitIn`: blocks and units.
* `Rule`, `Rule.run`: all rules.
* **`depth_balanced_and_bounded`**: a rule that succeeds leaves the depth as it was, and has passed
  the nesting limit nowhere.
-/

namespace ExprLang.Grammar

variable {g : Grammar} {d e top room : Nat}

/-! ## Statements -/

theorem counts_initializerIn (hd : d + room ≤ top) (operator : Token) :
    Counts d d top (g.initializerIn room operator) := by
  refine .bind (counts_expressionIn hd) fun found => ?_
  rcases found with _ | value
  · exact .refuse _ _
  · exact .ite (.refuse _ _) (.pure _)

theorem counts_declarationIn (hd : d + room ≤ top) :
    Counts d d top (g.declarationIn room) := by
  refine .bind (.flat .consume) fun keyword => .bind (.flat (.expectOr _ _)) fun name =>
    .bind (.flat .typeClause) fun declared => .bind (.flat (.note _)) fun _ =>
      .bind (.flat (.declare _ _)) fun _ => .bind (.flat (.accept _)) fun found => ?_
  rcases found with _ | operator
  · exact .ite (.refuse _ _) (.bind (.flat (.discard_expectOr _ _)) fun _ => .pure _)
  · refine .bind (counts_initializerIn hd operator) fun value => ?_
    rcases unify declared value.type? operator.line with e | type
    · exact .flat (.throw _)
    · exact .bind (.flat (.resolve _ _)) fun _ => .pure _

theorem counts_statementIn (hd : d + room ≤ top) : Counts d d top (g.statementIn room) :=
  .bind (.flat .currentKind) fun _ => .ite (.map some (counts_declarationIn hd))
    (counts_expressionIn hd)

/-! ## Blocks -/

theorem counts_bodyStep {statement block : Part} (hs : Counts d d top statement.run)
    (hb : Counts d d top block.run) : Counts d d top (bodyStep statement block) :=
  .bind hs fun _ => .bind hb fun _ => .ite (.pure _) (.pure _)

theorem counts_bodyOf {statement block : Part} (hs : Counts d d top statement.run)
    (hb : Counts d d top block.run) : Counts d d top (bodyOf statement block) :=
  .map List.flatten (.collect (counts_bodyStep hs hb))

/-- The inside of a block counts up the level that was counted down in front of it. -/
theorem counts_insideOf {statement block : Part} (hs : Counts (d + 1) (d + 1) top statement.run)
    (hb : Counts (d + 1) (d + 1) top block.run) (hd : d ≤ top) :
    Counts (d + 1) d top (g.insideOf statement block) :=
  .bind (counts_bodyOf hs hb) fun _ => .bind (.flat (.discard_expectOr _ _)) fun _ =>
    .bind (.leave hd) fun _ => .bind (.flat .get) fun _ => .pure _

theorem counts_inNewScope {α : Type} {action : ParseM α} (h : Counts d e top action) :
    Counts d e top (inNewScope action) := by
  intro s a t hs hr
  obtain ⟨u, hu, rfl⟩ := inNewScope_eq_ok hr
  exact h { s with scopes := s.scopes.push } a u hs hu

theorem counts_blockOf {inside : ParseM (List Tree × Nat)} (h : Counts d d top inside) :
    Counts d d top (g.blockOf inside) := by
  refine .bind (.flat (.accept _)) fun found => ?_
  rcases found with _ | opening
  · exact .pure none
  · exact .bind (.flat (.note _)) fun _ => .bind h fun _ => .bind (.flat (.note _)) fun _ =>
      .pure _

theorem counts_blockPart (room : Nat) (hd : d + room ≤ top) :
    Counts d d top (g.blockPart room).run := by
  induction room generalizing d with
  | zero => exact counts_blockOf counts_exceedDepth
  | succ room ih =>
    have hinside : d + 1 + room ≤ top := by omega
    exact counts_blockOf <| .bind (.deepen (by omega)) fun _ =>
      counts_inNewScope (counts_insideOf (counts_statementIn hinside) (ih hinside) (by omega))

theorem counts_unitIn (hd : d + room ≤ top) : Counts d d top (g.unitIn room) := by
  refine .bind (counts_statementIn hd) fun found => ?_
  rcases found with _ | statement
  · refine .bind (counts_blockPart room hd) fun found => ?_
    rcases found with _ | block
    · exact .bind (.flat .lookahead) fun _ => .refuse _ _
    · exact .pure _
  · exact .pure _

/-! ## All rules -/

/-- The rules of the grammar. -/
inductive Rule where
  | unit
  | statement
  | declaration
  | expression
  | block
  | binding (previous : Option Token) (inParen : Bool)
  | signed
  | trailed
  | operand
  | grouping

/-- A rule, performed at the present depth. -/
def Rule.run (g : Grammar) : Rule → ParseM (Option Tree)
  | unit => g.topLevelUnit
  | statement => g.statement
  | declaration => some <$> g.declaration
  | expression => g.expression
  | block => g.block
  | binding previous inParen => g.binding previous inParen
  | signed => g.signed
  | trailed => g.trailed
  | operand => g.operand
  | grouping => some <$> g.grouping

theorem Counts.atPresentDepth {α : Type} {x : Nat → ParseM α}
    (h : Counts d e top (x (g.maxDepth - d))) : Counts d e top (g.room >>= x) := by
  rintro s a t rfl hr
  exact h s a t rfl hr

theorem counts_rule (g : Grammar) (rule : Rule) (d : Nat) :
    Counts d d (d + (g.maxDepth - d)) (rule.run g) := by
  have hd : d ≤ d + (g.maxDepth - d) := Nat.le_add_right _ _
  have hgroup : Counts d d (d + (g.maxDepth - d))
      (g.groupOf (g.groupContentIn (g.maxDepth - d))) :=
    counts_groupOf (counts_groupContentIn (Nat.le_refl _)) hd
  cases rule with
  | unit => exact .atPresentDepth (counts_unitIn (Nat.le_refl _))
  | statement => exact .atPresentDepth (counts_statementIn (Nat.le_refl _))
  | declaration => exact .map some (.atPresentDepth (counts_declarationIn (Nat.le_refl _)))
  | expression => exact .atPresentDepth (counts_expressionIn (Nat.le_refl _))
  | block => exact .atPresentDepth (counts_blockPart _ (Nat.le_refl _))
  | binding previous inParen =>
    exact .atPresentDepth ((counts_nested _).2 d (Nat.le_refl _) previous inParen)
  | signed => exact .atPresentDepth ((counts_nested _).1 d (Nat.le_refl _))
  | trailed => exact .atPresentDepth (counts_trailedOf hgroup)
  | operand => exact .atPresentDepth (counts_operandOf hgroup)
  | grouping => exact .map some (.atPresentDepth hgroup)

/-- **The depth is balanced and bounded.** A rule that succeeds counts up again whatever it counts
down, and its depths are all within the nesting limit if the first one is. -/
theorem depth_balanced_and_bounded (g : Grammar) (rule : Rule) (s t : ParseState)
    (r : Option Tree) (h : rule.run g s = .ok r t) :
    t.depth = s.depth ∧ ∃ levels, t.trail.levels = levels ++ s.trail.levels ∧
      Leads s.depth s.depth levels ∧
      (s.depth ≤ g.maxDepth → ∀ level ∈ levels, level ≤ g.maxDepth) := by
  obtain ⟨hdepth, levels, htrail, hleads, hlow⟩ := counts_rule g rule s.depth s r t rfl h
  refine ⟨hdepth, levels, htrail, hdepth ▸ hleads, fun hs level hlevel => ?_⟩
  have := hlow level hlevel
  omega

/-- The sign and the parenthesis count two levels each, and the limit is reached. -/
theorem depth_balanced_and_bounded_signed_group : ∃ r t,
    Rule.expression.run (standard .standard .standard 4) (.ofSource (.ofString "-(1);")) =
      .ok r t ∧ t.depth = 0 ∧ t.trail.levels = [0, 1, 2, 3, 4, 3, 2, 1] ∧
    Leads 0 0 t.trail.levels ∧ ∀ level ∈ t.trail.levels, level ≤ 4 := by
  obtain ⟨r, t, h, hpeak⟩ := exists_of_succeeds <|
    show succeeds (fun _ t => t.trail.levels == [0, 1, 2, 3, 4, 3, 2, 1])
      (Rule.expression.run (standard .standard .standard 4) (.ofSource (.ofString "-(1);"))) =
        true by decide +kernel
  obtain ⟨hdepth, levels, htrail, hleads, hlow⟩ := depth_balanced_and_bounded
    (standard .standard .standard 4) .expression (.ofSource (.ofString "-(1);")) t r h
  obtain rfl : t.trail.levels = levels := htrail.trans (List.append_nil levels)
  exact ⟨r, t, h, hdepth, eq_of_beq hpeak, hleads, hlow (Nat.zero_le _)⟩

end ExprLang.Grammar
