import ExprLang.Proofs.Language.Unambiguous
import ExprLang.Proofs.Parallel.Expressions
import ExprLang.Proofs.Parallel.Limits
import ExprLang.Proofs.Precedence.Operands

/-!
# Operands that can be joined are joined

Between operands that are read alone, any operators but `=` are taken, whatever their precedences.
Nothing but the nesting limit can stand in the way.

* `Joinable`: operators that do not assign, and operands that are read alone within some levels.
* `runs_bindingIn`: such operands are joined, if there are levels enough.
* **`binding_of_joinable`**: with a nesting limit that is high enough there are.
* `binding_of_limit_le`: what is read with a higher limit is read with a lower one, or the parse is
  cut off.
-/

namespace ExprLang.Grammar

variable {g : Grammar} {last : Token} {scopes : Scopes} {tail : List Token} {levels height : Nat}

/-! ## Operands that can be joined -/

/-- Within so many levels the tokens are read as a tree of at most this height, whatever comes
behind them. -/
def ReadsWithin (g : Grammar) (scopes : Scopes) (levels height : Nat) (tokens : List Token) :
    Prop :=
  ∃ tree : Tree, tree.height ≤ height ∧ ∀ next, Reads g scopes .signed levels tokens next tree

theorem ReadsWithin.mono {levels' height' : Nat} {tokens : List Token}
    (h : ReadsWithin g scopes levels height tokens) (hl : levels ≤ levels')
    (hh : height ≤ height') : ReadsWithin g scopes levels' height' tokens := by
  obtain ⟨tree, htree, hreads⟩ := h
  exact ⟨tree, Nat.le_trans htree hh, fun next => (hreads next).mono_room hl⟩

/-- No operator assigns, and every operand is read alone. -/
def Joinable (g : Grammar) (scopes : Scopes) (levels height : Nat)
    (others : List (Token × List Token)) : Prop :=
  ∀ e ∈ others, e.1.kind ∈ infixKinds ∧ e.1.kind ≠ .assignment ∧
    ReadsWithin g scopes levels height e.2

/-- The state stands in front of `count` operators with their operands, which can be joined, and
`tail`. -/
def BeforeJoinable (g : Grammar) (last : Token) (scopes : Scopes) (tail : List Token)
    (levels height count : Nat) (s : ParseState) : Prop :=
  ∃ others, Joinable g scopes levels height others ∧ others.length = count ∧
    Before g last (chain others ++ tail) s ∧ s.scopes = scopes

/-- Behind the tree there are operands left that can be joined, and if each of them makes a tree
taller by one level, none gets taller than `bound`. -/
def Leaves (g : Grammar) (last : Token) (scopes : Scopes) (tail : List Token)
    (levels height bound : Nat) (tree : Tree) (s : ParseState) : Prop :=
  ∃ count, BeforeJoinable g last scopes tail levels height count s ∧
    tree.height + count ≤ bound ∧ height + count ≤ bound

/-- With room for so many levels, an operand and what can be joined to it is read up to an operator
that `previous` does not leave to it, if there are levels enough. -/
def RunsBinding (g : Grammar) (last : Token) (scopes : Scopes) (tail : List Token)
    (levels height room : Nat) : Prop :=
  ∀ previous first others s, ReadsWithin g scopes levels height first →
    Joinable g scopes levels height others → levels + others.length < room →
    height + others.length ≤ g.maxDepth → Before g last (first ++ (chain others ++ tail)) s →
    s.scopes = scopes →
    Runs (fun _ => False) (g.bindingIn room previous false) s fun r t =>
      ∃ tree, r = some tree ∧
        Leaves g last scopes tail levels height (height + others.length) tree t

/-! ## Climbing -/

theorem ReadsWithin.runs {tokens rest : List Token} {room : Nat} {s : ParseState}
    (h : ReadsWithin g scopes levels height tokens) (hle : levels ≤ room)
    (hs : Before g last (tokens ++ rest) s) (hscopes : s.scopes = scopes) :
    Runs (fun _ => False) (g.signedIn room) s fun r t =>
      ∃ tree, r = some tree ∧ tree.height ≤ height ∧ Before g last rest t ∧ t.scopes = scopes := by
  obtain ⟨tree, htree, hreads⟩ := h
  obtain ⟨t, ht, hb, hts⟩ := ((hreads _).mono_room hle).delivers rest rfl s hs hscopes
  unfold Runs
  rw [ht]
  exact ⟨tree, rfl, htree, hb, hts⟩

theorem runs_checkTarget {tolerated : Failure → Prop} {operator : Token} {target : Tree}
    (h : operator.kind ≠ .assignment) (s : ParseState) :
    Runs tolerated (checkTarget operator target) s fun _ t => s = t := by
  unfold checkTarget
  rw [if_neg h]
  exact .pure rfl

/-- Climbing goes on behind what the right operand leaves over. With every operator that is taken
the tree may get taller by one level, and there is one operator less. -/
theorem runs_climb (hg : g.StandardPositions) (hend : Terminates false (firstOf tail last))
    {room : Nat} (ihb : RunsBinding g last scopes tail levels height room)
    {previous : Option Token} {left : Tree} {bound count : Nat} {s : ParseState}
    (hs : BeforeJoinable g last scopes tail levels height count s) (hroom : levels + count ≤ room)
    (hleft : left.height + count ≤ bound) (hheight : height + count ≤ bound)
    (hbound : bound ≤ g.maxDepth) :
    Runs (fun _ => False) (g.climb (fun operator => g.bindingIn room (some operator) false)
      previous false left left.height) s (Leaves g last scopes tail levels height bound) := by
  obtain ⟨others, ho, rfl, hs, hscopes⟩ := hs
  rw [climb]
  refine .bind (runs_modify _ s) ?_
  rintro _ _ rfl
  have hs : Before g last (chain others ++ tail) (s.inRound ⟨left, left.height⟩) := hs
  refine .bind (runs_lookahead hs) ?_
  rintro _ t ⟨rfl, ht, hts⟩
  have htscopes := hts.trans hscopes
  refine .bind (runs_get t) ?_
  rintro _ _ ⟨rfl, rfl⟩
  cases others with
  | nil =>
    rw [chain, List.nil_append, afterOperand_of_terminates g hend]
    exact .pure ⟨0, ⟨[], List.forall_mem_nil _, rfl, ht, htscopes⟩, hleft, hheight⟩
  | cons e others =>
    obtain ⟨operator, operand⟩ := e
    obtain ⟨⟨hk, hne, hread⟩, hothers⟩ := List.forall_mem_cons.mp ho
    rw [List.length_cons] at hroom hleft hheight
    rw [chain, List.cons_append] at ht ⊢
    rw [firstOf_cons, hg.afterOperand_of_infix hk]
    refine .bind (runs_checkTarget hne t) ?_
    rintro _ _ rfl
    by_cases hy : g.yields previous operator = true
    · rw [if_pos hy]
      exact .pure ⟨_, ⟨_, ho, rfl, ht, htscopes⟩, hleft, hheight⟩
    · rw [if_neg hy]
      refine .bind (runs_consume ht) ?_
      rintro _ u ⟨rfl, hu, hus⟩
      rw [List.append_assoc] at hu
      refine .bind (ihb (some operator) _ _ u hread hothers (by omega) (by omega) hu
        (hus.trans htscopes)) ?_
      rintro _ w ⟨right, rfl, rest, hw, hright, hrest⟩
      have hpair : 1 + max left.height right.height = (pair operator left right).height :=
        (height_pair operator left right).symm
      have hlow : ¬ g.maxDepth < (pair operator left right).height := by omega
      simp only [hpair, dif_neg hlow]
      exact runs_climb hg hend ihb hw (by omega) (by omega) (by omega) hbound
termination_by g.maxDepth - left.height
decreasing_by omega

theorem runs_bindingIn (hg : g.StandardPositions) (hend : Terminates false (firstOf tail last))
    (room : Nat) : RunsBinding g last scopes tail levels height room := by
  induction room with
  | zero => exact fun _ _ _ _ _ _ hroom => absurd hroom (Nat.not_lt_zero _)
  | succ room ih =>
    intro previous first others s hfirst ho hroom hheight hs hscopes
    have hroom := Nat.le_of_lt_succ hroom
    unfold bindingIn
    refine .bind (runs_modify _ s) ?_
    rintro _ _ rfl
    have hs : Before g last (first ++ (chain others ++ tail)) (s.atDepth (s.depth + 1)) := hs
    refine .bind (hfirst.runs (Nat.le_of_add_right_le hroom) hs hscopes) ?_
    rintro _ t ⟨left, rfl, hleft, ht, hts⟩
    refine .bind (runs_climb hg hend ih ⟨others, ho, rfl, ht, hts⟩ hroom
      (Nat.add_le_add_right hleft _) (Nat.le_refl _) hheight) fun tree u hu => ?_
    refine .bind (runs_modify _ u) ?_
    rintro _ _ rfl
    exact .pure ⟨tree, rfl, hu⟩

/-! ## Whole expressions -/

/-- There is a bound for the heights of all operands. -/
theorem exists_joinable {others : List (Token × List Token)}
    (h : ∀ e ∈ others, e.1.kind ∈ infixKinds ∧ e.1.kind ≠ .assignment ∧
      ∃ tree, ReadsOperand g scopes e.2 tree) :
    ∃ height, Joinable g scopes g.maxDepth height others := by
  induction others with
  | nil => exact ⟨0, List.forall_mem_nil _⟩
  | cons e others ih =>
    obtain ⟨⟨hk, hne, tree, htree⟩, hothers⟩ := List.forall_mem_cons.mp h
    obtain ⟨height, hjoin⟩ := ih hothers
    refine ⟨max tree.height height, List.forall_mem_cons.mpr ⟨⟨hk, hne, tree, ?_, htree⟩, ?_⟩⟩
    · exact Nat.le_max_left _ _
    · intro e he
      obtain ⟨hk, hne, hread⟩ := hjoin e he
      exact ⟨hk, hne, hread.mono (Nat.le_refl _) (Nat.le_max_right _ _)⟩

/-- **Operands that are read alone are joined** with any nesting limit that is high enough. -/
theorem binding_of_joinable (hg : g.StandardPositions) {first : List Token}
    {others : List (Token × List Token)} {tree : Tree} {s : ParseState}
    (hs : Before g last (first ++ (chain others ++ tail)) s)
    (hend : Terminates false (firstOf tail last)) (hfirst : ReadsOperand g s.scopes first tree)
    (hothers : ∀ e ∈ others, e.1.kind ∈ infixKinds ∧ e.1.kind ≠ .assignment ∧
      ∃ tree, ReadsOperand g s.scopes e.2 tree) :
    ∃ enough, g.maxDepth ≤ enough ∧ ∀ limit, enough ≤ limit → ∃ tree t,
      { g with maxDepth := limit }.binding none false s = .ok (some tree) t := by
  obtain ⟨height, hjoin⟩ := exists_joinable hothers
  refine ⟨g.maxDepth + (s.depth + others.length + 1) + (tree.height + height + others.length),
    by omega, fun limit hlimit => ?_⟩
  have hlow : g.maxDepth ≤ limit := by omega
  have hpositions : { g with maxDepth := limit }.StandardPositions :=
    ⟨hg.isBefore, hg.isBetween, hg.isAfter, hg.operands⟩
  have hfirst' : ReadsWithin { g with maxDepth := limit } s.scopes g.maxDepth
      (tree.height + height) first :=
    ⟨tree, Nat.le_add_right _ _, fun next => (hfirst next).mono (Nat.le_refl _) hlow⟩
  have hjoin' : Joinable { g with maxDepth := limit } s.scopes g.maxDepth (tree.height + height)
      others := by
    intro e he
    obtain ⟨hk, hne, x, hx, hread⟩ := hjoin e he
    exact ⟨hk, hne, x, Nat.le_trans hx (Nat.le_add_left _ _),
      fun next => (hread next).mono (Nat.le_refl _) hlow⟩
  have hrun := runs_bindingIn hpositions hend (limit - s.depth) none first others s hfirst' hjoin'
    (by omega) (show _ ≤ limit by omega) hs rfl
  obtain ⟨r, t, ht, tree, rfl, -⟩ := hrun.exists_ok
  exact ⟨tree, t, ht⟩

/-- What is read with a higher nesting limit is read with a lower one, or the parse is cut off. -/
theorem binding_of_limit_le {limit : Nat} (h : g.maxDepth ≤ limit) {s t : ParseState} {tree : Tree}
    (hb : { g with maxDepth := limit }.binding none false s = .ok (some tree) t) :
    (∃ tree t, g.binding none false s = .ok (some tree) t) ∨
      ∃ line t, g.binding none false s =
        .error (.refused ⟨.nestingTooDeep g.maxDepth, line⟩) t := by
  have hrooms : (g.limitTwin h).Rooms (g.maxDepth - s.depth) (limit - s.depth) :=
    .fewer (g.limitTwin_cuts h) (Nat.sub_le_sub_right h _)
  have hm : Matching _ _ (CutOff g.maxDepth) _ (g.binding none false s)
      ({ g with maxDepth := limit }.binding none false s) :=
    ((g.limitTwin h).nested hrooms).binding false .none s s (g.limitTwin_abreast_refl h s)
  rw [hb] at hm
  generalize g.binding none false s = r at hm ⊢
  cases hm with
  | ok values =>
    cases values with
    | some _ => exact .inl ⟨_, _, rfl⟩
  | cut early =>
    obtain ⟨line, rfl⟩ := early
    exact .inr ⟨line, _, rfl⟩

end ExprLang.Grammar
