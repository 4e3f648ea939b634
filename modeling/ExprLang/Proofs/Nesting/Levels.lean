import ExprLang.Proofs.Nesting.Trail
import ExprLang.Proofs.Parallel.Runs
import ExprLang.Proofs.Parse.Phrase

/-!
# Levels of an expression

Whoever counts a level down counts it up again, and no rule counts more levels down than it has room
for. What a rule has counted on its way is found on the trail behind it.

* `Leads`, `Counted`: levels that go from one depth to another, and those between two states.
* `Counts d e top x`: from depth `d` a success of `x` leads to depth `e`, not above `top`.
* `Counts.bind`, …: one rule for each way to compose actions, and `Counts.collect` for loops.
* `counts_climb`, **`counts_nested`**, `counts_expressionIn`: the rules for expressions.
-/

namespace ExprLang.Grammar

variable {α β : Type} {d e m top : Nat} {s t u : ParseState}

/-! ## Levels on the trail -/

/-- The levels, the latest first, go from depth `d` to another depth, one level at a time. -/
inductive Leads (d : Nat) : Nat → List Nat → Prop
  | here : Leads d d []
  | down {e : Nat} {levels : List Nat} (h : Leads d e levels) : Leads d (e + 1) ((e + 1) :: levels)
  | up {e : Nat} {levels : List Nat} (h : Leads d (e + 1) levels) : Leads d e (e :: levels)

theorem Leads.trans {xs ys : List Nat} (h : Leads d m xs) (h' : Leads m e ys) :
    Leads d e (ys ++ xs) := by
  induction h' with
  | here => exact h
  | down _ ih => exact .down ih
  | up _ ih => exact .up ih

/-- The levels that have been counted between two states go from the depth of the one to that of the
other, and none is above `top`. -/
def Counted (top : Nat) (s t : ParseState) : Prop :=
  ∃ levels, t.trail.levels = levels ++ s.trail.levels ∧ Leads s.depth t.depth levels ∧
    ∀ level ∈ levels, level ≤ top

theorem Counted.trans (h : Counted top s t) (h' : Counted top t u) : Counted top s u := by
  obtain ⟨xs, ht, hleads, hlow⟩ := h
  obtain ⟨ys, hu, hleads', hlow'⟩ := h'
  exact ⟨ys ++ xs, by rw [hu, ht, List.append_assoc], hleads.trans hleads',
    List.forall_mem_append.mpr ⟨hlow', hlow⟩⟩

/-- From depth `d` a success of the action leads to depth `e`, and counts no level above `top`. -/
def Counts (d e top : Nat) (x : ParseM α) : Prop :=
  ∀ s a t, s.depth = d → x s = .ok a t → t.depth = e ∧ Counted top s t

namespace Counts

variable {x y : ParseM α}

theorem bind {f : α → ParseM β} (hx : Counts d m top x) (hf : ∀ a, Counts m e top (f a)) :
    Counts d e top (x >>= f) := by
  intro s b u hs h
  obtain ⟨a, t, ht, hu⟩ := bind_eq_ok_iff.mp h
  obtain ⟨htdepth, hst⟩ := hx s a t hs ht
  obtain ⟨hudepth, htu⟩ := hf a t b u htdepth hu
  exact ⟨hudepth, hst.trans htu⟩

theorem map (f : α → β) (hx : Counts d e top x) : Counts d e top (f <$> x) := by
  intro s b t hs h
  obtain ⟨a, ht, -⟩ := map_eq_ok_iff.mp h
  exact hx s a t hs ht

theorem ite {c : Prop} [Decidable c] (hx : Counts d e top x) (hy : Counts d e top y) :
    Counts d e top (if c then x else y) := by
  split
  · exact hx
  · exact hy

theorem flat (hx : Flat x) : Counts d d top x := by
  intro s a t hs h
  obtain ⟨hdepth, htrail⟩ := hx.of_ok h
  exact ⟨hdepth.trans hs, [], by rw [htrail, List.nil_append], hdepth ▸ .here,
    List.forall_mem_nil _⟩

theorem pure (a : α) : Counts d d top (Pure.pure a) := .flat (.pure a)

theorem fails (hx : ∀ s a t, x s ≠ .ok a t) : Counts d e top x :=
  fun s a t _ h => absurd h (hx s a t)

theorem refuse (cause : Cause) (line : UInt32) :
    Counts d e top (ExprLang.refuse cause line : ParseM α) := fails fun _ _ _ => throw_ne_ok

theorem deepen (hd : d + 1 ≤ top) : Counts d (d + 1) top deepen := by
  rintro s _ t rfl h
  obtain rfl := modify_eq_ok_iff.mp h
  exact ⟨rfl, [s.depth + 1], rfl, .down .here, List.forall_mem_singleton.mpr hd⟩

theorem leave (hd : d ≤ top) : Counts (d + 1) d top leave := by
  intro s _ t hs h
  obtain rfl := modify_eq_ok_iff.mp h
  have hdepth : s.depth - 1 = d := by rw [hs, Nat.add_sub_cancel]
  have hleads : Leads s.depth (s.depth - 1) [s.depth - 1] := by
    rw [hdepth, hs]
    exact .up .here
  exact ⟨hdepth, [s.depth - 1], rfl, hleads, List.forall_mem_singleton.mpr (hdepth ▸ hd)⟩

theorem beginRound (left : Tree) (height : Nat) : Counts d d top (beginRound left height) := by
  intro s _ t hs h
  obtain rfl := modify_eq_ok_iff.mp h
  exact ⟨hs, [], rfl, .here, List.forall_mem_nil _⟩

/-! ## Loops -/

variable {size : ParseState → Nat} {step : ParseM (Option α)}
  {shrinks : Shrinks size (·.isSome = true) step}

theorem collectFrom (h : Counts d d top step) (found : List α) :
    Counts d d top (collectFrom size step shrinks found) := by
  intro s all t hs hr
  fun_induction ExprLang.collectFrom size step shrinks found s with
  | case1 => cases hr
  | case2 found s u hstep =>
    cases hr
    exact h s none _ hs hstep
  | case3 found s a u hstep ih =>
    obtain ⟨hu, hsu⟩ := h s (some a) u hs hstep
    obtain ⟨ht, hut⟩ := ih hu hr
    exact ⟨ht, hsu.trans hut⟩

theorem collect (h : Counts d d top step) : Counts d d top (collect size step shrinks) :=
  h.collectFrom []

end Counts

/-! ## Operands -/

variable {g : Grammar}

theorem counts_groupOf {content : ParseM (Option Tree)} (h : Counts d (d + 1) top content)
    (hd : d ≤ top) : Counts d d top (g.groupOf content) := by
  refine .bind (.flat .consume) fun opening => .bind h fun found => ?_
  rcases found with _ | tree
  · exact .refuse _ _
  · exact .bind (.flat (.discard_expectOr _ _)) fun _ => .bind (.leave hd) fun _ => .pure tree

theorem counts_operandOf {group : ParseM Tree} (h : Counts d d top group) :
    Counts d d top (g.operandOf group) := by
  refine .bind (.flat .currentKind) fun kind => ?_
  rcases g.operands.get? kind with _ | _ | _ | _
  · exact .pure none
  · exact .map some (.flat .literal)
  · exact .map some (.flat .symbol)
  · exact .map some h

theorem counts_trailedOf {group : ParseM Tree} (h : Counts d d top group) :
    Counts d d top (g.trailedOf group) := by
  refine .bind (counts_operandOf h) fun found => ?_
  rcases found with _ | operand
  · exact .pure none
  · exact .bind (.flat .currentKind) fun kind => .ite
      (.bind (.flat .consume) fun operator => .pure _) (.pure _)

/-! ## Operators between operands -/

/-- Climbing stays on its level, if reading what stands to the right of an operator does. -/
theorem counts_climb {rightOperand : Token → ParseM (Option Tree)}
    (h : ∀ operator, Counts d d top (rightOperand operator)) (previous : Option Token)
    (inParen : Bool) (left : Tree) (height : Nat) :
    Counts d d top (g.climb rightOperand previous inParen left height) := by
  rw [climb]
  refine .bind (.beginRound _ _) fun _ => .bind (.flat .lookahead) fun token =>
    .bind (.flat .get) fun s => ?_
  rcases g.afterOperand inParen s.previous token with cause | _ | _
  · exact .refuse _ _
  · exact .pure left
  · refine .bind (.flat (.checkTarget _ _)) fun _ => .ite (.pure left) <|
      .bind (.flat .consume) fun operator => .bind (h operator) fun found => ?_
    rcases found with _ | right
    · exact .refuse _ _
    · simp only
      split
      · exact .flat (.exceedHeight _)
      · exact counts_climb h _ _ _ _
termination_by g.maxDepth - height

/-! ## Nested rules -/

theorem counts_exceedDepth : Counts d e top (g.exceedDepth : ParseM α) :=
  .fails fun _ _ _ => exceedDepth_ne_ok

theorem counts_signedIn_zero (hd : d ≤ top) : Counts d d top (g.signedIn 0) := by
  rw [signedIn]
  exact .bind (.flat .currentKind) fun kind => .ite
    (.bind (.flat (.map _ .consume)) fun _ => counts_exceedDepth)
    (counts_trailedOf (counts_groupOf counts_exceedDepth hd))

/-- A sign and a parenthesis count one level down each, and leave it to the room below. -/
theorem counts_signedIn_succ {room : Nat} (hd : d + 1 ≤ top)
    (hs : Counts (d + 1) (d + 1) top (g.signedIn room))
    (hb : Counts (d + 1) (d + 1) top (g.bindingIn room none true)) :
    Counts d d top (g.signedIn (room + 1)) := by
  have hd' : d ≤ top := Nat.le_of_succ_le hd
  rw [signedIn]
  refine .bind (.flat .currentKind) fun kind => .ite ?_
    (counts_trailedOf (counts_groupOf (.bind (.deepen hd) fun _ => hb) hd'))
  refine .bind (.flat .consume) fun operator => .bind (.deepen hd) fun _ => .bind hs fun found =>
    .bind (.leave hd') fun _ => ?_
  rcases found with _ | operand
  · exact .refuse _ _
  · exact .pure _

theorem counts_bindingIn_succ {room : Nat} (hd : d + 1 ≤ top)
    (hs : Counts (d + 1) (d + 1) top (g.signedIn room))
    (hb : ∀ previous inParen,
      Counts (d + 1) (d + 1) top (g.bindingIn room previous inParen))
    (previous : Option Token) (inParen : Bool) :
    Counts d d top (g.bindingIn (room + 1) previous inParen) := by
  have hleave : Counts (d + 1) d top leave := .leave (Nat.le_of_succ_le hd)
  refine .bind (.deepen hd) fun _ => .bind hs fun found => ?_
  rcases found with _ | left
  · rcases previous with _ | operator
    · refine .bind (.flat .lookahead) fun token => ?_
      rcases g.insteadOfOperand inParen token with _ | cause
      · exact .bind hleave fun _ => .pure none
      · exact .refuse _ _
    · exact .bind (.flat .currentLine) fun _ => .refuse _ _
  · exact .bind (counts_climb (fun _ => hb _ _) _ _ _ _) fun tree =>
      .bind hleave fun _ => .pure _

/-- **No rule for expressions counts more levels down than it has room for**, and each counts them
up again. -/
theorem counts_nested (room : Nat) :
    (∀ d, d + room ≤ top → Counts d d top (g.signedIn room)) ∧
      ∀ d, d + room ≤ top → ∀ previous inParen,
        Counts d d top (g.bindingIn room previous inParen) := by
  -- `top` stays as it is: a level that is counted down is one that the room gives up.
  induction room with
  | zero => exact ⟨fun d hd => counts_signedIn_zero hd, fun d hd _ _ => counts_exceedDepth⟩
  | succ room ih =>
    obtain ⟨ihs, ihb⟩ := ih
    constructor
    · intro d hd
      exact counts_signedIn_succ (by omega) (ihs _ (by omega)) (ihb _ (by omega) _ _)
    · intro d hd
      exact counts_bindingIn_succ (by omega) (ihs _ (by omega)) (ihb _ (by omega))

variable {room : Nat}

theorem counts_groupContentIn (hd : d + room ≤ top) :
    Counts d (d + 1) top (g.groupContentIn room) := by
  cases room with
  | zero => exact counts_exceedDepth
  | succ room => exact .bind (.deepen (by omega)) fun _ => (counts_nested room).2 _ (by omega) _ _

theorem counts_expressionIn (hd : d + room ≤ top) : Counts d d top (g.expressionIn room) := by
  refine .bind ((counts_nested room).2 d hd none false) fun found => ?_
  rcases found with _ | tree
  · exact .bind (.flat (.accept _)) fun _ => .pure _
  · exact .bind (.flat (.discard_expectOr _ _)) fun _ => .map some (.flat (.typed tree))

end ExprLang.Grammar
