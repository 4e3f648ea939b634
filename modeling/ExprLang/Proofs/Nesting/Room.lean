import ExprLang.Proofs.Language.Sound
import ExprLang.Proofs.Parse.Failing
import ExprLang.Proofs.Parse.Runs

/-!
# Room for every program

A level of nesting is paid for by tokens: a sign and a parenthesis each cost one, and open at most
two levels. With twice as many levels as tokens, and one more, no program of the standard language
is nested too deeply.

* `toCome`: the number of tokens in front of a state.
* `Reads.height_le`: an expression is no higher than it has tokens.
* `Spared`: the action is not stopped by the nesting limit.
* **`spared_nested`**, **`spared_blockPart`**, `spared_program`: no rule is, if there is room.
-/

namespace ExprLang.Grammar

variable {g : Grammar} {α β : Type} {s t : ParseState}

/-! ## Counting tokens -/

/-- The number of tokens to come. -/
def toCome (g : Grammar) (s : ParseState) : Nat := (s.tokens.upcoming g.vocabulary).1.length

theorem toCome_of_takes {tokens : List Token}
    (h : TokenStream.Takes g.vocabulary s.tokens tokens t.tokens)
    (hne : ∀ token ∈ tokens, token.kind ≠ .eof) : toCome g s = tokens.length + toCome g t := by
  unfold toCome
  rw [h.upcoming hne, List.length_append]

theorem toCome_of_look (h : Advance g s [] t) : toCome g s = toCome g t := by
  rw [toCome_of_takes h.takes (List.forall_mem_nil _), List.length_nil, Nat.zero_add]

theorem toCome_of_take {token : Token} (h : Advance g s [token] t) (hk : token.kind ≠ .eof) :
    toCome g s = toCome g t + 1 := by
  rw [toCome_of_takes h.takes (List.forall_mem_singleton.mpr hk), List.length_singleton,
    Nat.add_comm]

/-- In front of no token there is none but an `eof`. -/
theorem kind_of_toCome_zero {token : Token} (ha : s.tokens.ahead = some token)
    (h : toCome g s = 0) : token.kind = .eof := by
  refine Classical.not_not.mp fun hk => ?_
  unfold toCome at h
  rw [TokenStream.upcoming_of_ahead ha, Upcoming.cons_of_ne hk] at h
  cases h

/-! ## Heights -/

/-- The height of what stands in front of a phrase. -/
def Phrase.front : Phrase → Nat
  | .extension _ _ left => left.height
  | _ => 0

/-- **A phrase adds no more height than it has tokens.** -/
theorem Reads.height_le {scopes : Scopes} {phrase : Phrase} {room : Nat} {tokens : List Token}
    {next : Token} {tree : Tree} (h : Reads g scopes phrase room tokens next tree) :
    tree.height ≤ phrase.front + tokens.length := by
  induction h with
  | literal | symbol =>
    rw [Tree.height_eq_rank, Tree.rank]
    exact Nat.le_refl _
  | group _ _ _ ih =>
    simp only [Phrase.front, List.length_cons, List.length_append, List.length_nil] at ih ⊢
    omega
  | sign _ _ ih =>
    rw [Tree.height_unary]
    simp only [Phrase.front, List.length_cons] at ih ⊢
    omega
  | plain _ _ _ ih => exact ih
  | trailed _ _ _ ih =>
    rw [Tree.height_unary]
    simp only [Phrase.front, List.length_append, List.length_singleton] at ih ⊢
    omega
  | binding _ _ ih ih' =>
    simp only [Phrase.front, List.length_append] at ih ih' ⊢
    omega
  | ends | yields => exact Nat.le_refl _
  | extend _ _ _ _ _ _ ih ih' =>
    simp only [Phrase.front, height_pair, List.length_append, List.length_cons] at ih ih' ⊢
    omega

theorem ReadsRun.count (hg : g.StandardPositions) {phrase : Phrase} {room : Nat} {tree : Tree}
    (h : ReadsRun g phrase room s t tree) :
    ∃ n, toCome g s = n + toCome g t ∧ tree.height ≤ phrase.front + n := by
  obtain ⟨tokens, ht, hreads⟩ := h
  obtain ⟨next, hn⟩ := exists_nextIs t
  have hr := hreads next hn
  exact ⟨tokens.length, toCome_of_takes ht.takes (hr.derives hg).ne_eof, hr.height_le⟩

/-! ## Actions that the nesting limit does not stop -/

/-- The nesting limit does not stop the action. -/
def Spared (x : ParseM α) (s : ParseState) : Prop := FailsBy (fun e _ => ¬e.TooDeep) x s

theorem lenient_spared : Lenient fun e _ => ¬e.TooDeep where
  lexical _ _ h := h.not_tooDeep
  semantic _ _ h := Failure.not_tooDeep_of_semantic h

theorem spared_refuse {cause : Cause} {line : UInt32} (h : ∀ limit, cause ≠ .nestingTooDeep limit) :
    Spared (refuse cause line : ParseM α) s := failsBy_refuse (Failure.not_tooDeep_refused h)

theorem spared_lookahead : Spared g.lookahead s := failsBy_lookahead lenient_spared

theorem spared_currentKind : Spared g.currentKind s := failsBy_currentKind lenient_spared

theorem spared_consume : Spared g.consume s := failsBy_consume lenient_spared

theorem spared_expectOr {kind : Kind} {cause : Cause} (h : ∀ limit, cause ≠ .nestingTooDeep limit) :
    Spared (g.expectOr kind cause) s := by
  refine .bind spared_lookahead fun token t _ => ?_
  split
  · exact spared_consume
  · exact .bind .modify fun _ _ _ => spared_refuse h

/-! ## Operands -/

theorem spared_literal : Spared g.literal s := by
  refine .bind spared_consume fun token t _ => ?_
  split
  · exact .pure
  · exact spared_refuse nofun

theorem spared_groupOf {content : ParseM (Option Tree)} {opening : Token}
    (ha : s.tokens.ahead = some opening)
    (h : ∀ u, Advance g s [opening] u → Spared content u) : Spared (g.groupOf content) s := by
  refine .bind spared_consume fun token u hc => ?_
  obtain rfl := eq_of_consume ha hc
  refine .bind (h u (advance_of_consume hc)) fun r w _ => ?_
  split
  · exact .bind (.map (spared_expectOr nofun)) fun _ _ _ => .bind .modify fun _ _ _ => .pure
  · exact spared_refuse nofun

theorem spared_trailedOf (hg : g.IsStandard) {group : ParseM Tree}
    (h : ∀ opening u, opening.kind = .openParen → Advance g s [] u →
      u.tokens.ahead = some opening → Spared group u) : Spared (g.trailedOf group) s := by
  refine .bind (.bind spared_currentKind fun kind u hk => ?_) fun r w _ => ?_
  · obtain ⟨token, rfl, hu, ha⟩ := advance_of_currentKind hk
    rcases rule : g.operands.get? token.kind with _ | _ | _ | _
    · exact .pure
    · exact .map spared_literal
    · exact .map (failsBy_symbol lenient_spared)
    · exact .map (h token u (hg.positions.eq_openParen rule) hu ha)
  · split
    · refine .bind spared_currentKind fun kind x _ => ?_
      split
      · exact .bind spared_consume fun _ _ _ => .pure
      · exact .pure
    · exact .pure

/-! ## Operators between operands -/

theorem afterOperand_ne_tooDeep {inParen : Bool} {previous : String} {token : Token} {cause : Cause}
    (h : g.afterOperand inParen previous token = .error cause) (limit : Nat) :
    cause ≠ .nestingTooDeep limit := by
  unfold afterOperand at h
  split at h
  case h_8 =>
    split at h <;> cases h
    exact nofun
  all_goals
    cases h
    try exact nofun

/-- An expression that is no higher than the tokens leave room for stays so: an operator and what
stands to its right cost more tokens than they add height. -/
theorem spared_climb (hg : g.IsStandard) {room : Nat} {inParen : Bool}
    (ih : ∀ operator s, toCome g s ≤ g.maxDepth → 2 * toCome g s < room →
      Spared (g.bindingIn room (some operator) inParen) s)
    {previous : Option Token} {left : Tree} {height : Nat} {s : ParseState}
    (hlow : height + toCome g s ≤ g.maxDepth) (hroom : 2 * toCome g s ≤ room) :
    Spared (g.climb (fun operator => g.bindingIn room (some operator) inParen) previous inParen
      left height) s := by
  rw [climb]
  refine .bind .modify fun _ r hround => .bind spared_lookahead fun token u hl => .get ?_
  obtain ⟨hu, ha⟩ := advance_of_lookahead hl
  have hu := (advance_of_beginRound hround).trans hu
  rw [toCome_of_look hu] at hlow hroom
  rcases hafter : g.afterOperand inParen u.previous token with cause | _ | _
  · exact spared_refuse (afterOperand_ne_tooDeep hafter)
  · exact .pure
  · have hk : token.kind ≠ .eof := by
      have hinfix := hg.positions.mem_infixKinds ⟨_, hafter⟩
      exact (by decide : ∀ k ∈ infixKinds, k ≠ .eof) _ hinfix
    refine .bind (failsBy_checkTarget lenient_spared) fun _ w hc => ?_
    obtain ⟨rfl, -⟩ := fitsTarget_of_checkTarget hc
    split
    · exact .pure
    · refine .bind spared_consume fun operator x hx => ?_
      obtain rfl := eq_of_consume ha hx
      have hcount := toCome_of_take (advance_of_consume hx) hk
      refine .bind (ih _ _ (by omega) (by omega)) fun r y hr => ?_
      cases r with
      | none => exact spared_refuse (by rintro _ ⟨⟩)
      | some right =>
        obtain ⟨n, hn, hright⟩ := (reads_of_bindingIn hr).reads.count hg.positions
        simp only [Phrase.front] at hright
        simp only [dif_neg (show ¬g.maxDepth < 1 + max height right.height by omega)]
        exact spared_climb hg ih (by omega) (by omega)
termination_by g.maxDepth - height
decreasing_by omega

/-! ## Nested rules -/

theorem spared_signedIn_zero (hg : g.IsStandard) (h : 2 * toCome g s ≤ 0) :
    Spared (g.signedIn 0) s := by
  rw [signedIn]
  refine .bind spared_currentKind fun kind u hk => ?_
  obtain ⟨token, rfl, hu, ha⟩ := advance_of_currentKind hk
  rw [toCome_of_look hu] at h
  have heof := kind_of_toCome_zero (g := g) ha (by omega)
  rw [if_neg (by rw [heof, hg.positions.isBefore]; decide)]
  refine spared_trailedOf hg fun opening w hopen hw ha' => ?_
  have := kind_of_toCome_zero (g := g) ha' (by rw [← toCome_of_look hw]; omega)
  rw [hopen] at this
  cases this

theorem spared_signedIn_succ (hg : g.IsStandard) {room : Nat}
    (ihs : ∀ s, toCome g s ≤ g.maxDepth → 2 * toCome g s ≤ room → Spared (g.signedIn room) s)
    (ihb : ∀ s, toCome g s ≤ g.maxDepth → 2 * toCome g s < room →
      Spared (g.bindingIn room none true) s)
    (hlow : toCome g s ≤ g.maxDepth) (hroom : 2 * toCome g s ≤ room + 1) :
    Spared (g.signedIn (room + 1)) s := by
  rw [signedIn]
  refine .bind spared_currentKind fun kind u hk => ?_
  obtain ⟨token, rfl, hu, ha⟩ := advance_of_currentKind hk
  rw [toCome_of_look hu] at hlow hroom
  split
  · next hsign =>
    refine .bind spared_consume fun operator w hc => .bind .modify fun _ x hd => ?_
    obtain rfl := eq_of_consume ha hc
    obtain rfl := modify_eq_ok_iff.mp hd
    have hkind : operator.kind ≠ .eof :=
      (by decide : ∀ k ∈ signKinds, k ≠ .eof) _ (hg.positions.mem_signKinds hsign)
    have hcount := toCome_of_take (advance_of_consume hc) hkind
    refine .bind (ihs _ (show toCome g w ≤ _ by omega) (show 2 * toCome g w ≤ _ by omega))
      fun r y _ => .bind .modify fun _ _ _ => ?_
    split
    · exact .pure
    · exact spared_refuse (by rintro _ ⟨⟩)
  · refine spared_trailedOf hg fun opening w hopen hw ha' => spared_groupOf ha' fun x hx => ?_
    have hcount := toCome_of_take hx (by rw [hopen]; decide)
    have hlook := toCome_of_look hw
    refine .bind .modify fun _ y hd => ?_
    obtain rfl := modify_eq_ok_iff.mp hd
    exact ihb _ (show toCome g x ≤ _ by omega) (show 2 * toCome g x < _ by omega)

theorem spared_bindingIn_succ (hg : g.IsStandard) {room : Nat}
    (ihs : ∀ s, toCome g s ≤ g.maxDepth → 2 * toCome g s ≤ room → Spared (g.signedIn room) s)
    (ihb : ∀ previous inParen s, toCome g s ≤ g.maxDepth → 2 * toCome g s < room →
      Spared (g.bindingIn room previous inParen) s)
    {previous : Option Token} {inParen : Bool} (hlow : toCome g s ≤ g.maxDepth)
    (hroom : 2 * toCome g s < room + 1) : Spared (g.bindingIn (room + 1) previous inParen) s := by
  unfold bindingIn
  refine .bind .modify fun _ s' hd => ?_
  obtain rfl := modify_eq_ok_iff.mp hd
  refine .bind (ihs _ hlow (Nat.le_of_lt_succ hroom)) fun r u hu => ?_
  split
  · next left =>
    rcases (reads_of_nested room).1 _ _ _ hu with ⟨tree, htree, hr⟩ | ⟨hnone, -⟩
    · cases htree
      obtain ⟨n, hn, hh⟩ := hr.count hg.positions
      simp only [Phrase.front] at hh
      have hpos := left.height_pos
      have hcount : toCome g s = n + toCome g u := hn
      refine .bind (spared_climb hg (fun operator => ihb (some operator) inParen) (by omega)
        (by omega)) fun _ _ _ => .bind .modify fun _ _ _ => .pure
    · cases hnone
  · split
    · exact .bind (.map spared_lookahead) fun _ _ _ => spared_refuse (by rintro _ ⟨⟩)
    · refine .bind spared_lookahead fun token w _ => ?_
      rcases hi : g.insteadOfOperand inParen token with _ | cause
      · exact .bind .modify fun _ _ _ => .pure
      · refine spared_refuse fun limit => ?_
        unfold insteadOfOperand at hi
        split_ifs at hi <;> cases hi <;> rintro ⟨⟩

/-- **No expression is nested too deeply** if there are two levels for each of its tokens, and one
more. -/
theorem spared_nested (hg : g.IsStandard) (room : Nat) :
    (∀ s, toCome g s ≤ g.maxDepth → 2 * toCome g s ≤ room → Spared (g.signedIn room) s) ∧
      ∀ previous inParen s, toCome g s ≤ g.maxDepth → 2 * toCome g s < room →
        Spared (g.bindingIn room previous inParen) s := by
  induction room with
  | zero =>
    exact ⟨fun s _ => spared_signedIn_zero hg, fun _ _ s _ h => absurd h (Nat.not_lt_zero _)⟩
  | succ room ih =>
    exact ⟨fun s => spared_signedIn_succ hg ih.1 (ih.2 none true),
      fun previous inParen s => spared_bindingIn_succ hg ih.1 ih.2⟩

end ExprLang.Grammar
