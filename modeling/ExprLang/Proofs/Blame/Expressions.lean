import ExprLang.Proofs.Blame.Faults
import ExprLang.Proofs.Parse.Runs

/-!
# What expressions are blamed on

The rules for expressions, one by one: each fails by the scanner, or blames an operator, a
parenthesis or a name that it has taken, or the token it looks at.

* `ReadsRun.seen`, `ReadsRun.resolved`: the tokens and the names of what has been read.
* `blames_groupOf`, `blames_climb`, …: the rules.
* `blames_typed`: the type check may blame a name without a type.
* **`blames_expressionIn`**: an expression with its semicolon.
-/

namespace ExprLang.Grammar

variable {g : Grammar} {start s t : ParseState} {Open : Token → Prop}

/-! ## States behind expressions -/

theorem ReadsRun.reached {phrase : Phrase} {room : Nat} {tree : Tree}
    (h : ReadsRun g phrase room s t tree) : Reached g s t := by
  obtain ⟨tokens, ht, -⟩ := h
  exact ht.reached

theorem SignedRun.reached {room : Nat} {r : Option Tree} (h : SignedRun g room s t r) :
    Reached g s t := by
  rcases h with ⟨_, -, h⟩ | ⟨-, h, -⟩
  · exact h.reached
  · exact h.reached

theorem BindingRun.reached {previous : Option Token} {inParen : Bool} {room : Nat}
    {r : Option Tree} (h : BindingRun g previous inParen room s t r) : Reached g s t := by
  rcases h with ⟨_, -, h⟩ | ⟨-, -, h, -⟩
  · exact h.reached
  · exact h.reached

/-- What is read is resolved, but for an extension that depends on what it extends. -/
theorem ReadsRun.resolved {phrase : Phrase} {room : Nat} {tree : Tree}
    (h : ReadsRun g phrase room s t tree) (hp : phrase.left? = none) :
    Resolved g.vocabulary s.scopes tree := by
  obtain ⟨tokens, -, hreads⟩ := h
  obtain ⟨next, hn⟩ := exists_nextIs t
  refine (hreads next hn).resolved fun _ _ _ he => ?_
  rw [he] at hp
  cases hp

theorem ReadsRun.seen {previous : Option Token} {inParen : Bool} {room : Nat} {tree : Tree}
    (h : ReadsRun g (.binding previous inParen) room s t tree) (hs : Reached g start s) :
    ∀ token ∈ tree.roots, Seen g start t token := by
  obtain ⟨tokens, ht, hreads⟩ := h
  obtain ⟨next, hn⟩ := exists_nextIs t
  exact (hreads next hn).forall_roots nofun fun _ hmem => hs.seen_of_mem ht hmem

/-! ## Operands -/

theorem blames_literal (h : Reached g start s) : FailsBy (Blames g start Open) g.literal s := by
  refine .bind (blames_consume h) fun token t hc => ?_
  split
  · exact .pure
  · exact blames_refuse (h.seen_of_consume hc) rfl

theorem blames_symbol (h : Reached g start s) : FailsBy (Blames g start Open) g.symbol s := by
  refine .bind (blames_consume h) fun token t hc => .get ?_
  split
  · exact .pure
  · exact blames_refuse (h.seen_of_consume hc) rfl

/-- Where nothing is in parentheses, the opening one is blamed. -/
theorem blames_groupOf {content : ParseM (Option Tree)} (h : Reached g start s)
    (hcontent : ∀ t, Reached g start t → FailsBy (Blames g start Open) content t)
    (hmoves : ∀ t r u, content t = .ok r u → Reached g t u) :
    FailsBy (Blames g start Open) (g.groupOf content) s := by
  refine .bind (blames_consume h) fun opening t hc => ?_
  have hseen := h.seen_of_consume hc
  have ht := h.advance (advance_of_consume hc)
  refine .bind (hcontent t ht) fun r u hr => ?_
  have hu := hmoves _ _ _ hr
  split
  · exact .bind (.map (blames_expectOr (ht.trans hu) rfl)) fun _ _ _ =>
      .bind .modify fun _ _ _ => .pure
  · exact blames_refuse (hseen.trans hu) rfl

theorem blames_trailedOf (room : Nat) {group : ParseM Tree} (h : Reached g start s)
    (hgroup : ∀ t, Reached g start t → FailsBy (Blames g start Open) group t)
    (hreads : ∀ s t token tree, s.tokens.ahead = some token →
      g.operands.get? token.kind = some .grouping → group s = .ok tree t →
        ReadsRun g .operand room s t tree) :
    FailsBy (Blames g start Open) (g.trailedOf group) s := by
  refine .bind (.bind (blames_currentKind h) fun kind t hk => ?_) fun r t hr => ?_
  · obtain ⟨token, rfl, ht, -⟩ := advance_of_currentKind hk
    have ht := h.advance ht
    rcases g.operands.get? token.kind with _ | _ | _ | _
    · exact .pure
    · exact .map (blames_literal ht)
    · exact .map (blames_symbol ht)
    · exact .map (hgroup t ht)
  · split
    · have ht : Reached g s t := by
        rcases reads_of_operandOf hreads hr with ⟨_, -, ht⟩ | ⟨-, ht, -⟩
        · exact ht.reached
        · exact ht.reached
      refine .bind (blames_currentKind (h.trans ht)) fun kind u hk => ?_
      obtain ⟨_, -, hu, -⟩ := advance_of_currentKind hk
      split
      · exact .bind (blames_consume ((h.trans ht).advance hu)) fun _ _ _ => .pure
      · exact .pure
    · exact .pure

/-! ## Operators between operands -/

/-- What stands before an `=` is resolved, so that it is declared if it is a name. -/
theorem blames_checkTarget {operator : Token} {target : Tree} (seen : Seen g start s operator)
    (hr : Resolved g.vocabulary s.scopes target) :
    FailsBy (Blames g start Open) (checkTarget operator target) s := by
  unfold checkTarget
  split
  · cases hr with
    | reference known =>
      refine .get ?_
      simp only [known]
      split
      · exact .pure
      · exact blames_refuse seen rfl
    | _ => exact blames_refuse seen rfl
  · exact .pure

theorem isPlain_of_afterOperand {inParen : Bool} {previous : String} {token : Token}
    {cause : Cause} (h : g.afterOperand inParen previous token = .error cause) :
    cause.isPlain = true := by
  unfold afterOperand at h
  split at h
  case h_8 =>
    split at h <;> cases h
    rfl
  all_goals
    cases h
    try rfl

theorem isPlain_of_insteadOfOperand {inParen : Bool} {token : Token} {cause : Cause}
    (h : g.insteadOfOperand inParen token = some cause) : cause.isPlain = true := by
  unfold insteadOfOperand at h
  split_ifs at h <;> cases h <;> rfl

theorem blames_climb {room : Nat} {inParen : Bool}
    (ih : ∀ operator s, Reached g start s →
      FailsBy (Blames g start Open) (g.bindingIn room (some operator) inParen) s)
    (previous : Option Token) (left : Tree) (height : Nat) (s : ParseState)
    (h : Reached g start s) (hleft : Resolved g.vocabulary s.scopes left) :
    FailsBy (Blames g start Open)
      (g.climb (fun operator => g.bindingIn room (some operator) inParen) previous inParen left
        height) s := by
  rw [climb]
  refine .bind .modify fun _ r hround => .bind (blames_lookahead
    (h.advance (advance_of_beginRound hround))) fun token t hl => .get ?_
  obtain ⟨ht, ha⟩ := advance_of_lookahead hl
  have ht := (advance_of_beginRound hround).trans ht
  have hseen := (h.advance ht).seen ha
  rw [← ht.scopes] at hleft
  rcases hafter : g.afterOperand inParen t.previous token with cause | _ | _
  · exact blames_refuse hseen (isPlain_of_afterOperand hafter)
  · exact .pure
  · refine .bind (blames_checkTarget hseen hleft) fun _ u hc => ?_
    obtain ⟨rfl, hfits⟩ := fitsTarget_of_checkTarget hc
    split
    · exact .pure
    · refine .bind (blames_consume (h.advance ht)) fun operator w hx => ?_
      obtain rfl := eq_of_consume ha hx
      have hw := advance_of_consume hx
      refine .bind (ih operator w ((h.advance ht).advance hw)) fun r y hr => ?_
      rcases reads_of_bindingIn hr with ⟨right, rfl, hreads⟩ | ⟨-, hprevious, -⟩
      · have hy := hw.reached.trans hreads.reached
        simp only
        split
        · exact blames_exceedHeight (hseen.trans hy)
        · refine blames_climb ih previous _ _ y ((h.advance ht).trans hy) ?_
          have hright := hreads.resolved rfl
          obtain ⟨_, hadvance, -⟩ := hreads
          rw [hadvance.scopes, hw.scopes]
          exact resolved_pair hleft (hw.scopes ▸ hright) hfits
      · cases hprevious
termination_by g.maxDepth - height

/-! ## Nested rules -/

theorem blames_signedIn_zero (h : Reached g start s) :
    FailsBy (Blames g start Open) (g.signedIn 0) s := by
  rw [signedIn]
  refine .bind (blames_currentKind h) fun kind t hk => ?_
  obtain ⟨token, rfl, ht, -⟩ := advance_of_currentKind hk
  have ht := h.advance ht
  split
  · refine .bind (.map (blames_consume ht)) fun _ u hc => ?_
    obtain ⟨_, hc, -⟩ := map_eq_ok_iff.mp hc
    exact blames_exceedDepth (ht.advance (advance_of_consume hc))
  · refine blames_trailedOf 0 ht (fun u hu => blames_groupOf hu
      (fun _ => blames_exceedDepth) fun _ _ _ hr => absurd hr exceedDepth_ne_ok) ?_
    intro _ _ _ _ _ _ hgroup
    obtain ⟨_, _, _, hgroup⟩ := bind_eq_ok_iff.mp hgroup
    obtain ⟨_, _, hcontent, -⟩ := bind_eq_ok_iff.mp hgroup
    exact absurd hcontent exceedDepth_ne_ok

theorem blames_signedIn_succ {room : Nat}
    (ihs : ∀ s, Reached g start s → FailsBy (Blames g start Open) (g.signedIn room) s)
    (ihb : ∀ s, Reached g start s → FailsBy (Blames g start Open) (g.bindingIn room none true) s)
    (h : Reached g start s) : FailsBy (Blames g start Open) (g.signedIn (room + 1)) s := by
  rw [signedIn]
  refine .bind (blames_currentKind h) fun kind t hk => ?_
  obtain ⟨token, rfl, ht, -⟩ := advance_of_currentKind hk
  have ht := h.advance ht
  split
  · refine .bind (blames_consume ht) fun operator u hc => .bind .modify fun _ w hd => ?_
    obtain rfl := modify_eq_ok_iff.mp hd
    have hseen := ht.seen_of_consume hc
    have hu : Reached g start u := ht.advance (advance_of_consume hc)
    refine .bind (ihs _ hu) fun r x hr =>
      .bind .modify fun _ y hl => ?_
    obtain rfl := modify_eq_ok_iff.mp hl
    have hx := ((reads_of_nested room).1 _ _ _ hr).reached
    split
    · exact .pure
    · exact blames_refuse (Seen.trans (s := u) hseen hx) rfl
  · refine blames_trailedOf (room + 1) ht (fun u hu => blames_groupOf hu ?_ ?_) ?_
    · intro w hw
      refine .bind .modify fun _ x hd => ?_
      obtain rfl := modify_eq_ok_iff.mp hd
      exact ihb _ hw
    · intro w r x hx
      obtain ⟨_, y, hd, hx⟩ := bind_eq_ok_iff.mp hx
      obtain rfl := modify_eq_ok_iff.mp hd
      exact (reads_of_bindingIn hx).reached
    · exact fun _ _ _ _ ha rule hr =>
        reads_of_groupOf (fun _ _ _ hb => (reads_of_bindingIn hb).reads) ha rule hr

theorem blames_bindingIn_succ {room : Nat}
    (ihs : ∀ s, Reached g start s → FailsBy (Blames g start Open) (g.signedIn room) s)
    (ihb : ∀ previous inParen s, Reached g start s →
      FailsBy (Blames g start Open) (g.bindingIn room previous inParen) s)
    (previous : Option Token) (inParen : Bool) (h : Reached g start s) :
    FailsBy (Blames g start Open) (g.bindingIn (room + 1) previous inParen) s := by
  unfold bindingIn
  refine .bind .modify fun _ s' hd => ?_
  obtain rfl := modify_eq_ok_iff.mp hd
  refine .bind (ihs _ h) fun r t hr => ?_
  have hrun := (reads_of_nested room).1 _ _ _ hr
  have ht : Reached g start t := h.trans hrun.reached
  rcases hrun with ⟨left, rfl, hreads⟩ | ⟨rfl, -, next, hn, -⟩
  · have hleft := hreads.resolved rfl
    obtain ⟨_, hadvance, -⟩ := hreads
    exact .bind (blames_climb (fun operator => ihb (some operator) inParen) previous left
      left.height t ht (hadvance.scopes ▸ hleft)) fun _ _ _ => .bind .modify fun _ _ _ => .pure
  · have hseen := ht.seen hn
    cases previous with
    | some operator =>
      refine .bind (.map (blames_lookahead ht)) fun line u hl => ?_
      obtain ⟨token, hlook, rfl⟩ := map_eq_ok_iff.mp hl
      rw [lookahead_of_ahead hn] at hlook
      cases hlook
      exact blames_refuse hseen rfl
    | none =>
      refine .bind (blames_lookahead ht) fun token u hl => ?_
      rw [lookahead_of_ahead hn] at hl
      cases hl
      rcases hi : g.insteadOfOperand inParen next with _ | cause
      · exact .bind .modify fun _ _ _ => .pure
      · exact blames_refuse hseen (isPlain_of_insteadOfOperand hi)

theorem blames_nested (room : Nat) :
    (∀ s, Reached g start s → FailsBy (Blames g start Open) (g.signedIn room) s) ∧
      ∀ previous inParen s, Reached g start s →
        FailsBy (Blames g start Open) (g.bindingIn room previous inParen) s := by
  induction room with
  | zero => exact ⟨fun _ => blames_signedIn_zero, fun _ _ _ => blames_exceedDepth⟩
  | succ room ih =>
    exact ⟨fun _ => blames_signedIn_succ ih.1 (ih.2 none true),
      fun previous inParen _ => blames_bindingIn_succ ih.1 ih.2 previous inParen⟩

/-! ## Whole expressions -/

theorem advance_of_noteFault {d : Diagnostic} {u : Unit} (h : noteFault d s = .ok u t) :
    Advance g s [] t := by
  unfold noteFault at h
  rcases he : d.cause.checkEvent? with _ | e <;> rw [he] at h
  · obtain ⟨-, rfl⟩ := pure_eq_ok_iff.mp h
    exact .refl _
  · exact advance_of_note h

theorem failsBy_noteFault {E : Failure → ParseState → Prop} {d : Diagnostic} :
    FailsBy E (noteFault d) s := by
  unfold noteFault
  split
  · exact .modify
  · exact .pure

theorem blames_typed {scopes : Scopes} {tree : Tree} (hr : Resolved g.vocabulary scopes tree)
    (hseen : ∀ token ∈ tree.roots, Seen g start s token) :
    FailsBy (Blames g start (Untyped scopes)) (g.typed tree) s := by
  unfold typed
  rcases hcheck : tree.check g.typing with ⟨checked, _ | d⟩
  · exact .pure
  · refine .bind failsBy_noteFault fun _ t hn => .throw ?_
    obtain ⟨token, hmem, hline, hd⟩ := hr.faultAt (congrArg Checked.fault hcheck)
    have hseen := (hseen token hmem).advance (advance_of_noteFault hn)
    obtain ⟨cause, line⟩ := d
    obtain rfl : line = token.line := hline
    rcases hd with hplain | ⟨rfl, hopen⟩
    · exact .token hseen hplain
    · exact .untyped hseen hopen

/-- **An expression** blames one of its tokens, or the one behind it. Only the type check blames a
name without a type. -/
theorem blames_expressionIn {room : Nat} (h : Reached g start s) :
    FailsBy (Blames g start (Untyped s.scopes)) (g.expressionIn room) s := by
  refine .bind ((blames_nested room).2 none false s h) fun r t hr => ?_
  have hrun := reads_of_bindingIn hr
  have ht := h.trans hrun.reached
  cases r with
  | some tree =>
    refine .bind (.map (blames_expectOr ht rfl)) fun _ u he => .map ?_
    obtain ⟨_, -, hu⟩ := advance_of_discard_expectOr he
    exact blames_typed (hrun.reads.resolved rfl) fun token hmem =>
      (hrun.reads.seen h token hmem).advance hu
  | none => exact .bind (blames_accept ht) fun _ _ _ => .pure

end ExprLang.Grammar
