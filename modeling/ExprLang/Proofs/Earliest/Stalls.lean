import ExprLang.Proofs.Language.Sound
import ExprLang.Proofs.Parse.Failing
import ExprLang.Proofs.Parse.Runs

/-!
# Where errors of form are found

Where a rule fails for the form of a program, it has pulled one token too many: without that token,
what it has pulled may still become what the rule reads.

* `Viable`: tokens with which some such list of tokens starts.
* `Consumes`, `Pulled`: the tokens a run takes, and those together with the one it has seen.
* `Stalls`: the failures of an action come one token behind a viable list.
* `stalls_groupOf`, `stalls_climb`, …: the rules for expressions.
* **`stalls_nested`**: an expression.
-/

namespace ExprLang

/-- Some list that `P` describes starts with these tokens. -/
def Viable (P : List Token → Prop) (tokens : List Token) : Prop := ∃ more, P (tokens ++ more)

theorem Viable.of_append {P : List Token → Prop} {tokens ys : List Token} (h : P (tokens ++ ys)) :
    Viable P tokens := ⟨ys, h⟩

/-- What is viable inside a larger part is so behind what stands in front of it there. -/
theorem Viable.within {P Q : List Token → Prop} {xs tokens : List Token} (h : Viable P tokens)
    (hpq : ∀ tokens, P tokens → ∃ ys, Q (xs ++ (tokens ++ ys))) : Viable Q (xs ++ tokens) := by
  obtain ⟨more, hp⟩ := h
  obtain ⟨ys, hq⟩ := hpq _ hp
  refine ⟨more ++ ys, ?_⟩
  rwa [List.append_assoc, ← List.append_assoc tokens]

namespace Grammar

open TokenStream

variable (g : Grammar)

/-- The run from `s` to `t` takes `tokens`, of which none is an `eof`. -/
structure Consumes (s : ParseState) (tokens : List Token) (t : ParseState) : Prop where
  takes : Takes g.vocabulary s.tokens tokens t.tokens
  ne_eof : ∀ token ∈ tokens, token.kind ≠ .eof

/-- What the run from `s` to `t` has taken, and the token it has seen behind that if it has, are
`tokens`. -/
def Pulled (s : ParseState) (tokens : List Token) (t : ParseState) : Prop :=
  ∃ taken, Consumes g s taken t ∧ taken ++ t.tokens.ahead.toList = tokens

/-- A failure for the form comes one token behind what `V` describes. -/
def StallsAt (V : List Token → Prop) (s : ParseState) (e : Failure) (t : ParseState) : Prop :=
  e.OfForm → ∃ tokens bad, Pulled g s (tokens ++ [bad]) t ∧ V tokens

/-- Whenever the action fails for the form, it does so one token behind a viable list. -/
def Stalls {α : Type} (P : List Token → Prop) (x : ParseM α) (s : ParseState) : Prop :=
  FailsBy (StallsAt g (Viable P) s) x s

variable {g} {α : Type} {P Q : List Token → Prop} {V : List Token → Prop} {s t u : ParseState}

/-! ## Tokens taken -/

theorem Consumes.trans {xs ys : List Token} (h : Consumes g s xs t) (h' : Consumes g t ys u) :
    Consumes g s (xs ++ ys) u :=
  ⟨h.takes.trans h'.takes, List.forall_mem_append.mpr ⟨h.ne_eof, h'.ne_eof⟩⟩

theorem Advance.consumes {tokens : List Token} (h : Advance g s tokens t)
    (hne : ∀ token ∈ tokens, token.kind ≠ .eof) : Consumes g s tokens t := ⟨h.takes, hne⟩

theorem Advance.looks (h : Advance g s [] t) : Consumes g s [] t :=
  h.consumes (List.forall_mem_nil _)

theorem Advance.consumes_one {token : Token} (h : Advance g s [token] t)
    (hk : token.kind ≠ .eof) : Consumes g s [token] t :=
  h.consumes (List.forall_mem_singleton.mpr hk)

theorem Consumes.refl (s : ParseState) : Consumes g s [] s := (Advance.refl s).looks

theorem ReadsRun.consumes (hg : g.StandardPositions) {phrase : Phrase} {room : Nat} {tree : Tree}
    (h : ReadsRun g phrase room s t tree) :
    ∃ tokens, Consumes g s tokens t ∧ PhraseDerives phrase tokens := by
  obtain ⟨tokens, ht, hreads⟩ := h
  obtain ⟨next, hn⟩ := exists_nextIs t
  have hd := (hreads next hn).derives hg
  exact ⟨tokens, ht.consumes (PhraseDerives.ne_eof hd), hd⟩

theorem FormsRun.consumes (hg : g.IsStandard) {passage : Passage} {room : Nat} {trees : List Tree}
    (h : FormsRun g passage room s t trees) :
    ∃ tokens, Consumes g s tokens t ∧
      Derives (if passage = .several then .program else .unit) tokens := by
  obtain ⟨tokens, ht, -, hf⟩ := h
  have hd := hf.derives hg
  exact ⟨tokens, ⟨ht, hd.ne_eof⟩, hd⟩

/-! ## Failures -/

theorem lenient_stalls : Lenient (StallsAt g V s) where
  lexical _ _ h hform := absurd hform h.not_ofForm
  semantic _ _ h hform := absurd hform (Failure.not_ofForm_of_semantic h)

/-- Inside a larger part a rule stalls as it does alone: `xs` have been taken in front of it, and
some tokens behind it complete the part. -/
theorem stalls_within {xs : List Token} {x : ParseM α} (h : Consumes g s xs t)
    (hx : Stalls g P x t) (hpq : ∀ tokens, P tokens → ∃ ys, Q (xs ++ (tokens ++ ys))) :
    FailsBy (StallsAt g (Viable Q) s) x t := by
  intro e u hr hform
  obtain ⟨tokens, bad, ⟨taken, hu, heq⟩, hv⟩ := hx e u hr hform
  refine ⟨xs ++ tokens, bad, ⟨xs ++ taken, h.trans hu, ?_⟩, hv.within hpq⟩
  rw [List.append_assoc, heq, List.append_assoc]

theorem stalls_behind {xs : List Token} {x : ParseM α} (h : Consumes g s xs t)
    (hx : Stalls g P x t) (hpq : ∀ tokens, P tokens → Q (xs ++ tokens)) :
    FailsBy (StallsAt g (Viable Q) s) x t :=
  stalls_within h hx fun tokens hp => ⟨[], by rw [List.append_nil]; exact hpq tokens hp⟩

/-- The token that has been seen is the one too many. -/
theorem stalls_refuse {tokens : List Token} {bad : Token} {cause : Cause} {line : UInt32}
    (h : Consumes g s tokens t) (ha : t.tokens.ahead = some bad) (hv : Viable P tokens) :
    FailsBy (StallsAt g (Viable P) s) (refuse cause line : ParseM α) t := by
  refine failsBy_refuse fun _ => ⟨tokens, bad, ⟨tokens, h, ?_⟩, hv⟩
  rw [ha]
  rfl

theorem stalls_refuse_taken {tokens : List Token} {bad : Token} {cause : Cause} {line : UInt32}
    (h : Consumes g s (tokens ++ [bad]) t) (ha : t.tokens.ahead = none) (hv : Viable P tokens) :
    FailsBy (StallsAt g (Viable P) s) (refuse cause line : ParseM α) t := by
  refine failsBy_refuse fun _ => ⟨tokens, bad, ⟨tokens ++ [bad], h, ?_⟩, hv⟩
  rw [ha]
  exact List.append_nil _

theorem stalls_expectOr {tokens : List Token} {kind : Kind} {cause : Cause}
    (h : Consumes g s tokens t) (hv : Viable P tokens) :
    FailsBy (StallsAt g (Viable P) s) (g.expectOr kind cause) t := by
  refine .bind (failsBy_lookahead lenient_stalls) fun token u hl => ?_
  obtain ⟨hu, ha⟩ := advance_of_lookahead hl
  split
  · exact failsBy_consume lenient_stalls
  · refine .bind .modify fun _ w hn => ?_
    obtain rfl := modify_eq_ok_iff.mp hn
    have hw := h.trans hu.looks
    rw [List.append_nil] at hw
    exact stalls_refuse (hw.trans (advance_note _ u).looks) ha (by rwa [List.append_nil])

theorem stalls_exceedDepth : FailsBy (StallsAt g V s) (g.exceedDepth : ParseM α) t := by
  refine .bind .modify fun _ _ _ => .bind (failsBy_currentLine lenient_stalls) fun line _ _ =>
    .bind .modify fun _ _ _ => failsBy_refuse fun hform => ?_
  exact absurd hform (Failure.TooDeep.not_ofForm ⟨_, line, rfl⟩)

theorem stalls_exceedHeight {line : UInt32} :
    FailsBy (StallsAt g V s) (g.exceedHeight line : ParseM α) t :=
  .bind .modify fun _ _ _ => failsBy_refuse fun hform =>
    absurd hform (Failure.TooDeep.not_ofForm ⟨_, line, rfl⟩)

theorem consumes_of_accept {kind : Kind} (hk : kind ≠ .eof) {r : Option Token}
    (h : g.accept kind s = .ok r t) :
    (∃ token, r = some token ∧ token.kind = kind ∧ Consumes g s [token] t) ∨
      (r = none ∧ Consumes g s [] t ∧ ∃ next, t.tokens.ahead = some next) := by
  rcases advance_of_accept h with ⟨token, rfl, ht, hadvance⟩ | ⟨rfl, hadvance, next, hn, -⟩
  · exact .inl ⟨token, rfl, ht, hadvance.consumes_one (ht ▸ hk)⟩
  · exact .inr ⟨rfl, hadvance.looks, next, hn⟩

/-! ## Operands -/

/-- A token of each kind that completes a part. -/
def closingToken (kind : Kind) : Token := ⟨kind, "", 1⟩

theorem derives_one : Derives .operand [closingToken .intLiteral] := .plain (.literal (by decide))

theorem viable_expression_nil : Viable (Derives .expression) [] := ⟨_, .single derives_one⟩

theorem stalls_groupOf {content : ParseM (Option Tree)} {opening : Token}
    (ha : s.tokens.ahead = some opening) (hopen : opening.kind = .openParen)
    (hcontent : ∀ t, Consumes g s [opening] t → Stalls g (Derives .expression) content t)
    (hsome : ∀ t tree u, content t = .ok (some tree) u →
      ∃ tokens, Consumes g t tokens u ∧ Derives .expression tokens)
    (hnone : ∀ t u, content t = .ok none u →
      Consumes g t [] u ∧ ∃ next, u.tokens.ahead = some next) :
    Stalls g (Derives .primary) (g.groupOf content) s := by
  refine .bind (failsBy_consume lenient_stalls) fun found t hc => ?_
  obtain rfl := eq_of_consume ha hc
  have ht : Consumes g s [found] t := (advance_of_consume hc).consumes_one (by rw [hopen]; decide)
  have hclose : ∀ tokens, Derives .expression tokens →
      Derives .primary ([found] ++ (tokens ++ [closingToken .closeParen])) :=
    fun _ hd => .group hopen hd rfl
  refine .bind (stalls_within ht (hcontent t ht) fun tokens hd => ⟨_, hclose tokens hd⟩)
    fun r u hr => ?_
  cases r with
  | some tree =>
    obtain ⟨tokens, hu, hd⟩ := hsome _ _ _ hr
    refine .bind (.map (stalls_expectOr (ht.trans hu) ?_)) fun _ _ _ =>
      .bind .modify fun _ _ _ => .pure
    exact .of_append (by rw [List.append_assoc]; exact hclose tokens hd)
  | none =>
    obtain ⟨hu, next, hn⟩ := hnone _ _ hr
    exact stalls_refuse (ht.trans hu) hn (viable_expression_nil.within fun tokens hd =>
      ⟨_, hclose tokens hd⟩)

theorem stalls_trailedOf (hg : g.IsStandard) {group : ParseM Tree}
    (h : ∀ opening t, opening.kind = .openParen → t.tokens.ahead = some opening →
      Stalls g (Derives .primary) group t) : Stalls g (Derives .operand) (g.trailedOf group) s := by
  refine .bind (.bind (failsBy_currentKind lenient_stalls) fun kind t hk => ?_) fun r t _ => ?_
  · obtain ⟨token, rfl, ht, ha⟩ := advance_of_currentKind hk
    rcases rule : g.operands.get? token.kind with _ | _ | _ | _
    · exact .pure
    · refine .map (.bind (failsBy_consume lenient_stalls) fun found u hc => ?_)
      obtain rfl := eq_of_consume ha hc
      obtain ⟨type, htype⟩ := hg.exists_literalType (hg.positions.mem_literalKinds rule)
      rw [htype]
      exact .pure
    · exact .map (failsBy_symbol lenient_stalls)
    · exact .map (stalls_behind ht.looks (h token t (hg.positions.eq_openParen rule) ha)
        fun _ hd => .plain hd)
  · split
    · refine .bind (failsBy_currentKind lenient_stalls) fun kind u _ => ?_
      split
      · exact .bind (failsBy_consume lenient_stalls) fun _ _ _ => .pure
      · exact .pure
    · exact .pure

/-! ## Operators between operands -/

theorem extends_cons {operator : Token} {xs ys : List Token} (hk : operator.kind ∈ infixKinds)
    (hx : Derives .expression xs) (hy : Extends ys) : Extends (operator :: (xs ++ ys)) :=
  .inr ⟨operator, _, rfl, hk, hx.extend hy⟩

theorem stalls_climb (hg : g.StandardPositions) {room : Nat} {inParen : Bool}
    (ih : ∀ operator s, Stalls g (Derives .expression) (g.bindingIn room (some operator) inParen) s)
    (previous : Option Token) (left : Tree) (height : Nat) (s : ParseState) :
    Stalls g Extends (g.climb (fun operator => g.bindingIn room (some operator) inParen) previous
      inParen left height) s := by
  unfold Stalls
  rw [climb]
  refine .bind .modify fun _ r hround => .bind (failsBy_lookahead lenient_stalls) fun token t hl =>
    .get ?_
  obtain ⟨ht, ha⟩ := advance_of_lookahead hl
  have ht := (advance_of_beginRound hround).trans ht
  rcases hafter : g.afterOperand inParen t.previous token with cause | _ | _
  · exact stalls_refuse ht.looks ha ⟨[], .inl rfl⟩
  · exact .pure
  · have hinfix := hg.mem_infixKinds ⟨_, hafter⟩
    have hk : token.kind ≠ .eof := (by decide : ∀ k ∈ infixKinds, k ≠ .eof) _ hinfix
    refine .bind (failsBy_checkTarget lenient_stalls) fun _ u hc => ?_
    obtain ⟨rfl, -⟩ := fitsTarget_of_checkTarget hc
    split
    · exact .pure
    · refine .bind (failsBy_consume lenient_stalls) fun operator w hx => ?_
      obtain rfl := eq_of_consume ha hx
      have hw : Consumes g s [operator] w :=
        ht.looks.trans ((advance_of_consume hx).consumes_one hk)
      refine .bind (stalls_behind hw (ih operator w) fun tokens hd =>
        .inr ⟨operator, tokens, rfl, hinfix, hd⟩) fun r y hr => ?_
      rcases reads_of_bindingIn hr with ⟨right, rfl, hreads⟩ | ⟨-, hprevious, -⟩
      · obtain ⟨tokens, hy, hd⟩ := ReadsRun.consumes hg hreads
        simp only
        split
        · exact stalls_exceedHeight
        · exact stalls_behind (hw.trans hy) (stalls_climb hg ih previous _ _ y) fun ys he =>
            extends_cons hinfix hd he
      · cases hprevious
termination_by g.maxDepth - height

/-! ## Nested rules -/

theorem stalls_signedIn_zero (hg : g.IsStandard) (s : ParseState) :
    Stalls g (Derives .operand) (g.signedIn 0) s := by
  unfold Stalls
  rw [signedIn]
  refine .bind (failsBy_currentKind lenient_stalls) fun kind t hk => ?_
  obtain ⟨token, rfl, ht, ha⟩ := advance_of_currentKind hk
  split
  · exact .bind (.map (failsBy_consume lenient_stalls)) fun _ _ _ => stalls_exceedDepth
  · refine stalls_behind ht.looks (stalls_trailedOf hg fun opening u hopen hu => ?_) fun _ hd => hd
    exact .bind (failsBy_consume lenient_stalls) fun _ _ _ => .bind stalls_exceedDepth
      fun _ _ hr => absurd hr exceedDepth_ne_ok

theorem stalls_signedIn_succ (hg : g.IsStandard) {room : Nat}
    (ihs : ∀ s, Stalls g (Derives .operand) (g.signedIn room) s)
    (ihb : ∀ s, Stalls g (Derives .expression) (g.bindingIn room none true) s) (s : ParseState) :
    Stalls g (Derives .operand) (g.signedIn (room + 1)) s := by
  unfold Stalls
  rw [signedIn]
  refine .bind (failsBy_currentKind lenient_stalls) fun kind t hk => ?_
  obtain ⟨token, rfl, ht, ha⟩ := advance_of_currentKind hk
  split
  · next hsign =>
    have hkind := hg.positions.mem_signKinds hsign
    refine .bind (failsBy_consume lenient_stalls) fun operator u hc => ?_
    obtain rfl := eq_of_consume ha hc
    have hu : Consumes g s [operator] u := ht.looks.trans ((advance_of_consume hc).consumes_one
      ((by decide : ∀ k ∈ signKinds, k ≠ .eof) _ hkind))
    refine .bind .modify fun _ w hd => ?_
    obtain rfl := modify_eq_ok_iff.mp hd
    have hw : Consumes g s [operator] (u.atDepth (u.depth + 1)) := ⟨hu.takes, hu.ne_eof⟩
    refine .bind (stalls_behind hw (ihs _) fun _ hd => .sign hkind hd) fun r x hr =>
      .bind .modify fun _ y hl => ?_
    obtain rfl := modify_eq_ok_iff.mp hl
    rcases (reads_of_nested room).1 _ _ _ hr with ⟨tree, rfl, -⟩ | ⟨rfl, hx, next, hn, -⟩
    · exact .pure
    · have hy : Consumes g (u.atDepth (u.depth + 1)) [] (x.atDepth (x.depth - 1)) :=
        ⟨hx.takes, List.forall_mem_nil _⟩
      exact stalls_refuse (hw.trans hy) hn (.of_append (.sign hkind derives_one))
  · refine stalls_behind ht.looks (stalls_trailedOf hg fun opening u hopen hu => ?_) fun _ hd => hd
    refine stalls_groupOf hu hopen (fun w _ => .bind .modify fun _ x hd => ?_) ?_ ?_
    · obtain rfl := modify_eq_ok_iff.mp hd
      have hw : Consumes g w [] (w.atDepth (w.depth + 1)) := ⟨.refl _, List.forall_mem_nil _⟩
      exact stalls_behind hw (ihb _) fun _ hd => hd
    · intro w tree x hx
      obtain ⟨_, y, hd, hx⟩ := bind_eq_ok_iff.mp hx
      obtain rfl := modify_eq_ok_iff.mp hd
      obtain ⟨tokens, hy, hd⟩ := (reads_of_bindingIn hx).reads.consumes hg.positions
      exact ⟨tokens, ⟨hy.takes, hy.ne_eof⟩, hd⟩
    · intro w x hx
      obtain ⟨_, y, hd, hx⟩ := bind_eq_ok_iff.mp hx
      obtain rfl := modify_eq_ok_iff.mp hd
      rcases reads_of_bindingIn hx with ⟨_, hr, -⟩ | ⟨-, -, hx, next, hn, -⟩
      · cases hr
      · exact ⟨⟨hx.takes, List.forall_mem_nil _⟩, next, hn⟩

theorem stalls_bindingIn_succ (hg : g.IsStandard) {room : Nat}
    (ihs : ∀ s, Stalls g (Derives .operand) (g.signedIn room) s)
    (ihb : ∀ previous inParen s,
      Stalls g (Derives .expression) (g.bindingIn room previous inParen) s)
    (previous : Option Token) (inParen : Bool) (s : ParseState) :
    Stalls g (Derives .expression) (g.bindingIn (room + 1) previous inParen) s := by
  unfold Stalls bindingIn
  refine .bind .modify fun _ t hd => ?_
  obtain rfl := modify_eq_ok_iff.mp hd
  have ht : Consumes g s [] (s.atDepth (s.depth + 1)) := ⟨.refl _, List.forall_mem_nil _⟩
  refine .bind (stalls_behind ht (ihs _) fun _ hd => .single hd) fun r u hu => ?_
  rcases (reads_of_nested room).1 _ _ _ hu with ⟨left, rfl, hreads⟩ | ⟨rfl, hu, next, hn, -⟩
  · obtain ⟨tokens, hu, hd⟩ := hreads.consumes hg.positions
    exact .bind (stalls_behind (ht.trans hu) (stalls_climb hg.positions (fun operator =>
      ihb (some operator) inParen) previous left left.height u) fun _ he =>
        Derives.extend_operand hd he) fun _ _ _ => .bind .modify fun _ _ _ => .pure
  · have hu := ht.trans hu.looks
    cases previous with
    | some operator =>
      refine .bind (.map (failsBy_lookahead lenient_stalls)) fun line w hl => ?_
      obtain ⟨token, hl, -⟩ := map_eq_ok_iff.mp hl
      rw [lookahead_of_ahead hn] at hl
      cases hl
      exact stalls_refuse hu hn viable_expression_nil
    | none =>
      refine .bind (failsBy_lookahead lenient_stalls) fun token w hl => ?_
      rw [lookahead_of_ahead hn] at hl
      cases hl
      split
      · exact stalls_refuse hu hn viable_expression_nil
      · exact .bind .modify fun _ _ _ => .pure

/-- **An error in an expression** comes one token behind the start of an expression. -/
theorem stalls_nested (hg : g.IsStandard) (room : Nat) :
    (∀ s, Stalls g (Derives .operand) (g.signedIn room) s) ∧
      ∀ previous inParen s,
        Stalls g (Derives .expression) (g.bindingIn room previous inParen) s := by
  induction room with
  | zero => exact ⟨stalls_signedIn_zero hg, fun _ _ _ => stalls_exceedDepth⟩
  | succ room ih =>
    exact ⟨stalls_signedIn_succ hg ih.1 (ih.2 none true), stalls_bindingIn_succ hg ih.1 ih.2⟩

end Grammar

end ExprLang
