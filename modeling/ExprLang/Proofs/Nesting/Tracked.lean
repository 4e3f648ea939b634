import ExprLang.Proofs.Nesting.Height
import ExprLang.Proofs.Nesting.Trail
import ExprLang.Proofs.Parse.Runs

/-!
# The height that is tracked

Climbing keeps the height of the expression read so far as a number of its own, which every operator
raises, so that it need not be found anew. The number is the height, in every round: the rounds are
on the trail, also behind a failure.

* `Round.Exact`: the height that is tracked in a round is the height.
* `Tracks Q x`: every round that `x` begins is exact.
* `Tracks.bind`, …: one rule for each way to compose actions.
* `EndsWith`: the tree that is returned is that of the last round.
* `tracks_climb`, **`tracks_nested`**: the loop, and the rules that run it.
* **`tracked_height`**: the heights found by traversal, by recursion and by climbing are the same,
  and none above the limit is left to an operator between two operands.
-/

namespace ExprLang.Grammar

variable {α β : Type} {g : Grammar}

/-! ## Rounds on the trail -/

/-- The height that is tracked is the height of the expression. -/
def Round.Exact (round : Round) : Prop := round.height = round.left.height

/-- Every round that the action begins, be it on the way to a failure, is exact. If it succeeds, its
value and these rounds, the latest first, satisfy `Q`. -/
def Tracks (Q : α → List Round → Prop) (x : ParseM α) : Prop :=
  ∀ s, ∃ rounds, (attempt x s).2.trail.rounds = rounds ++ s.trail.rounds ∧
    (∀ round ∈ rounds, Round.Exact round) ∧ ∀ a, (attempt x s).1 = .ok a → Q a rounds

namespace Tracks

variable {x y : ParseM α} {P Q : α → List Round → Prop}

theorem of_rounds_eq (h : ∀ s, (attempt x s).2.trail.rounds = s.trail.rounds) :
    Tracks (fun _ rounds => rounds = []) x :=
  fun s => ⟨[], h s, List.forall_mem_nil _, fun _ _ => rfl⟩

theorem flat (hx : Flat x) : Tracks (fun _ rounds => rounds = []) x :=
  of_rounds_eq fun s => congrArg Trail.rounds (hx s).2

theorem deepen : Tracks (fun _ rounds => rounds = []) deepen := of_rounds_eq fun _ => rfl

theorem leave : Tracks (fun _ rounds => rounds = []) leave := of_rounds_eq fun _ => rfl

theorem pure {a : α} (h : Q a []) : Tracks Q (Pure.pure a) := by
  refine fun s => ⟨[], rfl, List.forall_mem_nil _, fun b hb => ?_⟩
  obtain rfl : a = b := Except.ok.inj hb
  exact h

theorem refuse (cause : Cause) (line : UInt32) :
    Tracks Q (ExprLang.refuse cause line : ParseM α) :=
  fun _ => ⟨[], rfl, List.forall_mem_nil _, fun _ h => nomatch h⟩

theorem bind {R : β → List Round → Prop} {f : α → ParseM β} (hx : Tracks P x)
    (hf : ∀ a first, P a first → Tracks (fun b more => R b (more ++ first)) (f a)) :
    Tracks R (x >>= f) := by
  intro s
  obtain ⟨first, hfirst, hexact, hP⟩ := hx s
  rw [attempt_bind]
  generalize attempt x s = r at hfirst hP ⊢
  rcases r with ⟨e | a, t⟩
  · exact ⟨first, hfirst, hexact, fun _ h => nomatch h⟩
  · obtain ⟨more, hmore, hexact', hR⟩ := hf a first (hP a rfl) t
    have hrounds : (attempt (f a) t).2.trail.rounds = (more ++ first) ++ s.trail.rounds := by
      rw [hmore, List.append_assoc, ← hfirst]
    exact ⟨more ++ first, hrounds, List.forall_mem_append.mpr ⟨hexact', hexact⟩, hR⟩

theorem after {R : β → List Round → Prop} {f : α → ParseM β}
    (hx : Tracks (fun _ rounds => rounds = []) x) (hf : ∀ a, Tracks R (f a)) :
    Tracks R (x >>= f) := by
  refine bind hx fun a first hfirst => ?_
  subst hfirst
  simpa only [List.append_nil] using hf a

theorem mono (h : Tracks P x) (hPQ : ∀ a rounds, P a rounds → Q a rounds) : Tracks Q x := by
  intro s
  obtain ⟨rounds, hrounds, hexact, hP⟩ := h s
  exact ⟨rounds, hrounds, hexact, fun a ha => hPQ a rounds (hP a ha)⟩

theorem map (f : α → β) (h : Tracks (fun _ _ => True) x) : Tracks (fun _ _ => True) (f <$> x) := by
  intro s
  obtain ⟨rounds, hrounds, hexact, -⟩ := h s
  rw [attempt_map]
  exact ⟨rounds, hrounds, hexact, fun _ _ => trivial⟩

theorem ite {c : Prop} [Decidable c] (hx : Tracks Q x) (hy : Tracks Q y) :
    Tracks Q (if c then x else y) := by
  split
  · exact hx
  · exact hy

/-- A round that is exact may be begun in front of anything. -/
theorem beginRound {left : Tree}
    (h : Tracks (fun a more => Q a (more ++ [⟨left, left.height⟩])) x) :
    Tracks Q (do beginRound left left.height; x) := by
  intro s
  obtain ⟨more, hmore, hexact, hQ⟩ := h (s.inRound ⟨left, left.height⟩)
  have hrounds : (attempt x (s.inRound ⟨left, left.height⟩)).2.trail.rounds =
      (more ++ [⟨left, left.height⟩]) ++ s.trail.rounds := by
    rw [hmore, List.append_assoc]
    rfl
  have hround : ∀ round ∈ [Round.mk left left.height], Round.Exact round :=
    List.forall_mem_singleton.mpr rfl
  exact ⟨_, hrounds, List.forall_mem_append.mpr ⟨hexact, hround⟩, hQ⟩

end Tracks

/-- The last of the rounds is that of the tree. -/
def EndsWith (tree : Tree) (rounds : List Round) : Prop :=
  rounds.head? = some ⟨tree, tree.height⟩

theorem EndsWith.append {tree : Tree} {rounds : List Round} (h : EndsWith tree rounds)
    (earlier : List Round) : EndsWith tree (rounds ++ earlier) := by
  unfold EndsWith at h ⊢
  rw [List.head?_append, h, Option.some_or]

/-! ## Climbing -/

/-- **Every round is exact**: an operator is one level above the taller of its operands. What is
found is the expression of the last round. -/
theorem tracks_climb {rightOperand : Token → ParseM (Option Tree)}
    (h : ∀ operator, Tracks (fun _ _ => True) (rightOperand operator)) (previous : Option Token)
    (inParen : Bool) (left : Tree) :
    Tracks EndsWith (g.climb rightOperand previous inParen left left.height) := by
  rw [climb]
  refine .beginRound <| .after (.flat .lookahead) fun token => .after (.flat .get) fun s => ?_
  have hleft : EndsWith left ([] ++ [⟨left, left.height⟩]) := rfl
  rcases g.afterOperand inParen s.previous token with cause | _ | _
  · exact .refuse _ _
  · exact .pure hleft
  · refine .after (.flat (.checkTarget _ _)) fun _ => .ite (.pure hleft) <|
      .after (.flat .consume) fun operator => .bind (h operator) fun found first _ => ?_
    rcases found with _ | right
    · exact .refuse _ _
    · have hpair : 1 + max left.height right.height = (pair operator left right).height :=
        (height_pair operator left right).symm
      simp only [hpair]
      split
      · exact .bind (.flat (.note _)) fun _ _ _ => .refuse _ _
      · exact (tracks_climb h previous inParen (pair operator left right)).mono
          fun tree rounds hends => (hends.append first).append _
termination_by g.maxDepth - left.height
decreasing_by omega

/-! ## Nested rules -/

theorem tracks_exceedDepth {Q : α → List Round → Prop} : Tracks Q (g.exceedDepth : ParseM α) :=
  .after .deepen fun _ => .after (.flat .currentLine) fun _ => .after (.flat (.note _)) fun _ =>
    .refuse _ _

theorem tracks_groupOf {content : ParseM (Option Tree)} (h : Tracks (fun _ _ => True) content) :
    Tracks (fun _ _ => True) (g.groupOf content) := by
  refine .after (.flat .consume) fun opening => .bind h fun found _ _ => ?_
  rcases found with _ | tree
  · exact .refuse _ _
  · exact .after (.flat (.discard_expectOr _ _)) fun _ => .after .leave fun _ => .pure trivial

theorem tracks_trailedOf {group : ParseM Tree} (h : Tracks (fun _ _ => True) group) :
    Tracks (fun _ _ => True) (g.trailedOf group) := by
  have hoperand : Tracks (fun _ _ => True) (g.operandOf group) := by
    refine .after (.flat .currentKind) fun kind => ?_
    rcases g.operands.get? kind with _ | _ | _ | _
    · exact .pure trivial
    · exact .mono (.flat (.map _ .literal)) fun _ _ _ => trivial
    · exact .mono (.flat (.map _ .symbol)) fun _ _ _ => trivial
    · exact .map some h
  refine .bind hoperand fun found _ _ => ?_
  rcases found with _ | operand
  · exact .pure trivial
  · exact .after (.flat .currentKind) fun _ => .ite
      (.after (.flat .consume) fun _ => .pure trivial) (.pure trivial)

theorem tracks_signedIn_succ {room : Nat} (hs : Tracks (fun _ _ => True) (g.signedIn room))
    (hb : Tracks (fun _ _ => True) (g.bindingIn room none true)) :
    Tracks (fun _ _ => True) (g.signedIn (room + 1)) := by
  rw [signedIn]
  refine .after (.flat .currentKind) fun _ => .ite ?_
    (tracks_trailedOf (tracks_groupOf (.after .deepen fun _ => hb)))
  refine .after (.flat .consume) fun _ => .after .deepen fun _ => .bind hs fun found _ _ =>
    .after .leave fun _ => ?_
  rcases found with _ | operand
  · exact .refuse _ _
  · exact .pure trivial

theorem tracks_bindingIn_succ {room : Nat} (hs : Tracks (fun _ _ => True) (g.signedIn room))
    (hb : ∀ previous inParen, Tracks (fun _ _ => True) (g.bindingIn room previous inParen))
    (previous : Option Token) (inParen : Bool) :
    Tracks (fun found rounds => ∀ tree, found = some tree → EndsWith tree rounds)
      (g.bindingIn (room + 1) previous inParen) := by
  refine .after .deepen fun _ => .bind hs fun found first _ => ?_
  rcases found with _ | left
  · rcases previous with _ | operator
    · refine .after (.flat .lookahead) fun token => ?_
      rcases g.insteadOfOperand inParen token with _ | cause
      · exact .after .leave fun _ => .pure fun tree h => absurd h.symm (Option.some_ne_none tree)
      · exact .refuse _ _
    · exact .after (.flat .currentLine) fun _ => .refuse _ _
  · refine .bind (tracks_climb (fun _ => hb _ _) previous inParen left) fun tree rounds hends =>
      .after .leave fun _ => .pure ?_
    rintro _ ⟨⟩
    rw [List.nil_append]
    exact hends.append first

/-- **Every round of every loop is exact**, and what a loop leaves is the tree of its last round. -/
theorem tracks_nested (room : Nat) :
    Tracks (fun _ _ => True) (g.signedIn room) ∧ ∀ previous inParen,
      Tracks (fun found rounds => ∀ tree, found = some tree → EndsWith tree rounds)
        (g.bindingIn room previous inParen) := by
  induction room with
  | zero =>
    refine ⟨?_, fun _ _ => tracks_exceedDepth⟩
    rw [signedIn]
    exact .after (.flat .currentKind) fun _ => .ite
      (.after (.flat (.map _ .consume)) fun _ => tracks_exceedDepth)
      (tracks_trailedOf (tracks_groupOf tracks_exceedDepth))
  | succ room ih =>
    obtain ⟨hs, hends⟩ := ih
    have hb : ∀ previous inParen, Tracks (fun _ _ => True) (g.bindingIn room previous inParen) :=
      fun previous inParen => (hends previous inParen).mono fun _ _ _ => trivial
    exact ⟨tracks_signedIn_succ hs (hb _ _), tracks_bindingIn_succ hs hb⟩

theorem infixLow_of_bindingIn {room : Nat} {previous : Option Token} {inParen : Bool}
    {s t : ParseState} {tree : Tree} (h : g.bindingIn room previous inParen s = .ok (some tree) t) :
    tree.InfixLow g.maxDepth := by
  obtain ⟨tokens, -, hreads⟩ := (reads_of_bindingIn h).reads
  obtain ⟨next, hnext⟩ := exists_nextIs t
  exact (hreads next hnext).staysLow

/-- **The height that is tracked is the height**, and that which a traversal in any order finds. So
operators between two operands are at most as tall as the limit. -/
theorem tracked_height (g : Grammar) :
    (∀ tree : Tree, tree.height = tree.rank ∧
      tree.rank = (tree.children.map Tree.rank).max?.elim 1 (1 + ·)) ∧
    (∀ (tree : Tree) (deepest : Nat),
      Relation.ReflTransGen Tree.Visits (0, [(tree, 1)]) (deepest, []) ↔ deepest = tree.height) ∧
    (∀ room previous inParen s r t, attempt (g.bindingIn room previous inParen) s = (r, t) →
      ∃ rounds, t.trail.rounds = rounds ++ s.trail.rounds ∧
        (∀ round ∈ rounds, round.height = round.left.height) ∧
        ∀ tree, r = .ok (some tree) → rounds.head? = some ⟨tree, tree.height⟩) ∧
    ∀ room previous inParen s tree t,
      g.bindingIn room previous inParen s = .ok (some tree) t →
        ∀ node ∈ tree.preorder, node.isInfix = true → node.height ≤ g.maxDepth := by
  refine ⟨fun tree => ⟨tree.height_eq_rank, tree.rank_eq_max⟩, Tree.visits_iff,
    fun room previous inParen s r t hrun => ?_, fun _ _ _ _ _ _ h => infixLow_of_bindingIn h⟩
  obtain ⟨rounds, hrounds, hexact, hends⟩ := (tracks_nested room).2 previous inParen s
  rw [hrun] at hrounds hends
  exact ⟨rounds, hrounds, hexact, fun tree hr => hends (some tree) hr tree rfl⟩

/-- The sum in parentheses makes the product two levels taller. -/
theorem tracked_height_product :
    let g := standard .standard .standard 5
    let s := ParseState.ofSource (.ofString "1*(2+3)+4;")
    ∃ tree t, g.bindingIn 5 none false s = .ok (some tree) t ∧
      t.trail.rounds.map Round.height = [4, 1, 3, 2, 2, 1, 1, 1] ∧
      (∀ round ∈ t.trail.rounds, round.height = round.left.height) ∧
      t.trail.rounds.head? = some ⟨tree, tree.height⟩ ∧
      ∀ node ∈ tree.preorder, node.isInfix = true → node.height ≤ 5 := by
  intro g s
  obtain ⟨-, -, hrounds, hlow⟩ := tracked_height g
  obtain ⟨found, t, h, htest⟩ := exists_of_succeeds <|
    show succeeds (fun found t => found.isSome &&
        t.trail.rounds.map Round.height == [4, 1, 3, 2, 2, 1, 1, 1])
      (g.bindingIn 5 none false s) = true by decide +kernel
  obtain ⟨hsome, heights⟩ := Bool.and_eq_true_iff.mp htest
  obtain ⟨tree, rfl⟩ := Option.isSome_iff_exists.mp hsome
  obtain ⟨rounds, htrail, hexact, hends⟩ := hrounds 5 none false s _ t (attempt_of_ok h)
  obtain rfl : t.trail.rounds = rounds := htrail.trans (List.append_nil rounds)
  exact ⟨tree, t, h, eq_of_beq heights, hexact, hends tree rfl, hlow _ _ _ _ _ _ h⟩

end ExprLang.Grammar
