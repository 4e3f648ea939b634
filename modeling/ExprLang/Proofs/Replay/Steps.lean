import ExprLang.Proofs.Lexing.AnySource
import ExprLang.Proofs.Parallel.Runs
import ExprLang.Proofs.Parse.Advance
import ExprLang.Proofs.Parse.Failing
import ExprLang.Proofs.Stream.Passes

/-!
# Actions that can be replayed

An action of a parse depends on the tokens that it pulls from the scanner, and on nothing behind
them: from any scanner that passes the same tokens it has the same outcome, and stops behind them.

* `Pulls`: the tokens that a run pulls. It takes no `eof`.
* `Level`: states that differ in what their scanners have yet to find, at most.
* `Replays`, `Local`: an outcome is had again; so is every outcome but a failed scan.
* `Local.bind`, `Local.collect`, …: composed actions.
* `local_lookahead`, `local_consume`, `local_accept`, `local_expectOr`: the steps.
-/

namespace ExprLang.Grammar

open TokenStream

variable (g : Grammar) {α β : Type}

/-- The run from `s` to `t` pulls `tokens` from the scanner; it takes no `eof`. -/
def Pulls (s : ParseState) (tokens : List Token) (t : ParseState) : Prop :=
  ∃ taken, Takes g.vocabulary s.tokens taken t.tokens ∧ (∀ token ∈ taken, token.kind ≠ .eof) ∧
    s.tokens.ahead.toList ++ tokens = taken ++ t.tokens.ahead.toList

/-- States that agree in all but their scanners and journals. -/
structure Level (s t : ParseState) : Prop where
  ahead : t.tokens.ahead = s.tokens.ahead
  scopes : t.scopes = s.scopes
  depth : t.depth = s.depth
  previous : t.previous = s.previous

/-- From every state level with `s` whose scanner passes the same tokens the action has the same
outcome, in a state level with `t`. -/
def Replays (x : ParseM α) (s t : ParseState)
    (outcome : ParseState → EStateM.Result Failure ParseState α) : Prop :=
  ∃ tokens, Pulls g s tokens t ∧ ∀ s' u, Level s s' →
    Scanner.Passes g.vocabulary s'.tokens.scanner tokens u →
      ∃ t', x s' = outcome t' ∧ Level t t' ∧ t'.tokens.scanner = u

/-- From `s` the action fails for a failed scan, or its outcome can be had again. -/
def Local (x : ParseM α) (s : ParseState) : Prop :=
  match x s with
  | .ok a t => Replays g x s t (.ok a)
  | .error e t => e.Lexical ∨ Replays g x s t (.error e)

variable {g} {s t u : ParseState}

/-! ## Tokens pulled -/

theorem Pulls.refl (s : ParseState) : Pulls g s [] s :=
  ⟨[], .refl _, List.forall_mem_nil _, List.append_nil _⟩

theorem Pulls.trans {xs ys : List Token} (h : Pulls g s xs t) (h' : Pulls g t ys u) :
    Pulls g s (xs ++ ys) u := by
  obtain ⟨taken, ht, hne, heq⟩ := h
  obtain ⟨taken', ht', hne', heq'⟩ := h'
  refine ⟨taken ++ taken', ht.trans ht', List.forall_mem_append.mpr ⟨hne, hne'⟩, ?_⟩
  rw [← List.append_assoc, heq, List.append_assoc, heq', List.append_assoc]

theorem Pulls.passes {tokens : List Token} (h : Pulls g s tokens t) :
    Scanner.Passes g.vocabulary s.tokens.scanner tokens t.tokens.scanner := by
  obtain ⟨taken, ht, -, heq⟩ := h
  obtain ⟨found, hp, heq'⟩ := ht.passes
  obtain rfl := List.append_cancel_left (heq.trans heq'.symm)
  exact hp

/-- Two accounts of one run agree on what it has taken. -/
theorem taken_unique {xs ys : List Token} (hx : Takes g.vocabulary s.tokens xs t.tokens)
    (hxe : ∀ token ∈ xs, token.kind ≠ .eof) (hy : Takes g.vocabulary s.tokens ys t.tokens)
    (hye : ∀ token ∈ ys, token.kind ≠ .eof) : xs = ys := by
  have h := (hx.upcoming hxe).symm.trans (hy.upcoming hye)
  exact List.append_cancel_right (Prod.mk.inj h).1

/-! ## Composed actions -/

namespace Replays

variable {x : ParseM α} {outcome : ParseState → EStateM.Result Failure ParseState β}

theorem bind {a : α} {f : α → ParseM β} (hx : Replays g x s t (.ok a))
    (hf : Replays g (f a) t u outcome) : Replays g (x >>= f) s u outcome := by
  obtain ⟨xs, hxs, hx⟩ := hx
  obtain ⟨ys, hys, hf⟩ := hf
  refine ⟨xs ++ ys, hxs.trans hys, fun s' w hs hp => ?_⟩
  obtain ⟨m, hpx, hpy⟩ := hp.split
  obtain ⟨t', ht', hlevel, rfl⟩ := hx s' m hs hpx
  obtain ⟨u', hu', hlevel', rfl⟩ := hf t' w hlevel hpy
  exact ⟨u', by simp only [Bind.bind, EStateM.bind, ht', hu'], hlevel', rfl⟩

theorem bind_error {e : Failure} {f : α → ParseM β} (hx : Replays g x s t (.error e)) :
    Replays g (x >>= f) s t (.error e) := by
  obtain ⟨xs, hxs, hx⟩ := hx
  refine ⟨xs, hxs, fun s' w hs hp => ?_⟩
  obtain ⟨t', ht', hlevel⟩ := hx s' w hs hp
  exact ⟨t', by simp only [Bind.bind, EStateM.bind, ht'], hlevel⟩

/-- An action that pulls nothing and has the same outcome wherever it starts. -/
theorem of_still {x : ParseM β} (k : ParseState → ParseState) (ht : Pulls g s [] (k s))
    (hx : ∀ s', Level s s' → x s' = outcome (k s') ∧ Level (k s) (k s') ∧
      (k s').tokens.scanner = s'.tokens.scanner) : Replays g x s (k s) outcome := by
  refine ⟨[], ht, fun s' u hs hp => ?_⟩
  obtain ⟨h, hlevel, hscanner⟩ := hx s' hs
  exact ⟨k s', h, hlevel, hscanner.trans hp.eq_of_nil.symm⟩

/-- An action `y` that does what `x` does between `enter` and `exit`, which pull nothing. -/
theorem around {x : ParseM α} {y : ParseM β} (enter exit : ParseState → ParseState)
    {inner : ParseState → EStateM.Result Failure ParseState α}
    (hx : Replays g x (enter s) t inner)
    (henter : ∀ s', Level s s' → Level (enter s) (enter s') ∧
      (enter s').tokens.scanner = s'.tokens.scanner)
    (hexit : ∀ t', Level t t' → Level (exit t) (exit t') ∧
      (exit t').tokens.scanner = t'.tokens.scanner)
    (hpulls : ∀ tokens, Pulls g (enter s) tokens t → Pulls g s tokens (exit t))
    (hy : ∀ s' t', x (enter s') = inner t' → y s' = outcome (exit t')) :
    Replays g y s (exit t) outcome := by
  obtain ⟨tokens, hp, hx⟩ := hx
  refine ⟨tokens, hpulls tokens hp, fun s' u hs hpass => ?_⟩
  obtain ⟨hlevel, hscanner⟩ := henter s' hs
  obtain ⟨t', ht', ht, rfl⟩ := hx _ u hlevel (hscanner.symm ▸ hpass)
  obtain ⟨hlevel', hscanner'⟩ := hexit t' ht
  exact ⟨exit t', hy s' t' ht', hlevel', hscanner'⟩

theorem same {x : ParseM α} {y : ParseM β}
    {inner : ParseState → EStateM.Result Failure ParseState α} (hx : Replays g x s t inner)
    (hy : ∀ s' t', x s' = inner t' → y s' = outcome t') : Replays g y s t outcome :=
  hx.around id id (fun _ h => ⟨h, rfl⟩) (fun _ h => ⟨h, rfl⟩) (fun _ h => h) hy

end Replays

namespace Local

variable {x : ParseM α} {f : α → ParseM β}

theorem of_ok {a : α} (h : x s = .ok a t) (hr : Replays g x s t (.ok a)) : Local g x s := by
  unfold Local
  rw [h]
  exact hr

theorem of_error {e : Failure} (h : x s = .error e t)
    (hr : e.Lexical ∨ Replays g x s t (.error e)) : Local g x s := by
  unfold Local
  rw [h]
  exact hr

theorem ok {a : α} (h : Local g x s) (hx : x s = .ok a t) : Replays g x s t (.ok a) := by
  unfold Local at h
  rwa [hx] at h

theorem error {e : Failure} (h : Local g x s) (hx : x s = .error e t) :
    e.Lexical ∨ Replays g x s t (.error e) := by
  unfold Local at h
  rwa [hx] at h

theorem bind (hx : Local g x s) (hf : ∀ a t, x s = .ok a t → Local g (f a) t) :
    Local g (x >>= f) s := by
  rcases hr : x s with ⟨a, t⟩ | ⟨e, t⟩
  · have hxf : (x >>= f) s = f a t := by simp only [Bind.bind, EStateM.bind, hr]
    have hf := hf a t hr
    rcases hr' : f a t with ⟨b, u⟩ | ⟨e, u⟩
    · exact .of_ok (hxf.trans hr') ((hx.ok hr).bind (hf.ok hr'))
    · exact .of_error (hxf.trans hr') ((hf.error hr').imp id (hx.ok hr).bind)
  · have hxf : (x >>= f) s = .error e t := by simp only [Bind.bind, EStateM.bind, hr]
    exact .of_error hxf ((hx.error hr).imp id .bind_error)

theorem pure {a : α} : Local g (Pure.pure a) s :=
  .of_ok rfl (.of_still id (.refl s) fun _ hs => ⟨rfl, hs, rfl⟩)

theorem throw {e : Failure} : Local g (MonadExcept.throw e : ParseM α) s :=
  .of_error rfl (.inr (.of_still id (.refl s) fun _ hs => ⟨rfl, hs, rfl⟩))

theorem refuse {cause : Cause} {line : UInt32} :
    Local g (ExprLang.refuse cause line : ParseM α) s :=
  .throw

theorem map {k : α → β} (hx : Local g x s) : Local g (k <$> x) s := by
  have h : k <$> x = x >>= fun a => Pure.pure (k a) := by
    funext s
    simp only [Functor.map, EStateM.map, Bind.bind, EStateM.bind]
    cases x s <;> rfl
  rw [h]
  exact .bind hx fun _ _ _ => .pure

theorem get {k : ParseState → ParseM β} (h : ∀ s', Level s s' → k s' = k s)
    (hk : Local g (k s) s) : Local g (MonadState.get >>= k) s := by
  have hget : ∀ s', (MonadState.get >>= k) s' = k s' s' := fun _ => rfl
  rcases hr : k s s with ⟨b, t⟩ | ⟨e, t⟩
  · obtain ⟨tokens, hp, hreplay⟩ := hk.ok hr
    refine .of_ok ((hget s).trans hr) ⟨tokens, hp, fun s' u hs hpass => ?_⟩
    rw [hget, h s' hs]
    exact hreplay s' u hs hpass
  · refine .of_error ((hget s).trans hr) ((hk.error hr).imp id ?_)
    rintro ⟨tokens, hp, hreplay⟩
    refine ⟨tokens, hp, fun s' u hs hpass => ?_⟩
    rw [hget, h s' hs]
    exact hreplay s' u hs hpass

theorem modify {k : ParseState → ParseState} (ht : Pulls g s [] (k s))
    (hk : ∀ s', Level s s' → Level (k s) (k s') ∧ (k s').tokens.scanner = s'.tokens.scanner) :
    Local g (modify k) s :=
  .of_ok rfl (.of_still k ht fun s' hs => ⟨rfl, hk s' hs⟩)

theorem note {e : Event} : Local g (note e) s :=
  .modify ⟨[], .note e (.refl _), List.forall_mem_nil _, List.append_nil _⟩ fun _ hs =>
    ⟨⟨hs.ahead, hs.scopes, hs.depth, hs.previous⟩, rfl⟩

theorem deepen : Local g deepen s :=
  .modify (.refl s) fun _ hs => ⟨⟨hs.ahead, hs.scopes, congrArg (· + 1) hs.depth, hs.previous⟩, rfl⟩

theorem leave : Local g leave s :=
  .modify (.refl s) fun _ hs => ⟨⟨hs.ahead, hs.scopes, congrArg (· - 1) hs.depth, hs.previous⟩, rfl⟩

theorem beginRound {left : Tree} {height : Nat} : Local g (beginRound left height) s :=
  .modify (.refl s) fun _ hs => ⟨⟨hs.ahead, hs.scopes, hs.depth, hs.previous⟩, rfl⟩

theorem resetDepth : Local g resetDepth s :=
  .modify (.refl s) fun _ hs => ⟨⟨hs.ahead, hs.scopes, rfl, hs.previous⟩, rfl⟩

theorem collectFrom {size : ParseState → Nat} {step : ParseM (Option α)}
    {shrinks : Shrinks size (·.isSome = true) step} (hstep : ∀ s, Local g step s) (found : List α)
    (s : ParseState) : Local g (collectFrom size step shrinks found) s := by
  fun_induction ExprLang.collectFrom size step shrinks found s with
  | case1 found s e t hs =>
    have hlast : ∀ s t, step s = .error e t →
        ExprLang.collectFrom size step shrinks found s = .error e t := by
      intro s t hs
      rw [Parallel.collectFrom_eq, hs]
    exact .of_error (hlast s t hs) (((hstep s).error hs).imp id (·.same hlast))
  | case2 found s t hs =>
    have hlast : ∀ s t, step s = .ok none t →
        ExprLang.collectFrom size step shrinks found s = .ok found.reverse t := by
      intro s t hs
      rw [Parallel.collectFrom_eq, hs]
    exact .of_ok (hlast s t hs) (((hstep s).ok hs).same hlast)
  | case3 found s a t hs ih =>
    have hfirst := (hstep s).ok hs
    have hround : ∀ s t, step s = .ok (some a) t →
        ExprLang.collectFrom size step shrinks found s =
          ExprLang.collectFrom size step shrinks (a :: found) t := by
      intro s t hs
      rw [Parallel.collectFrom_eq, hs]
    -- the first round, and then the others as one action
    have hreplay : ∀ {outcome : ParseState → EStateM.Result Failure ParseState (List α)} {u},
        Replays g (ExprLang.collectFrom size step shrinks (a :: found)) t u outcome →
          Replays g (ExprLang.collectFrom size step shrinks found) s u outcome := by
      rintro outcome u ⟨ys, hys, hothers⟩
      obtain ⟨xs, hxs, hfirst⟩ := hfirst
      refine ⟨xs ++ ys, hxs.trans hys, fun s' w hlevel hpass => ?_⟩
      obtain ⟨m, hpx, hpy⟩ := hpass.split
      obtain ⟨t', ht', hlevel', rfl⟩ := hfirst s' m hlevel hpx
      rw [hround s' t' ht']
      exact hothers t' w hlevel' hpy
    rcases hr : ExprLang.collectFrom size step shrinks (a :: found) t with ⟨all, u⟩ | ⟨e, u⟩
    · exact .of_ok ((hround s t hs).trans hr) (hreplay (ih.ok hr))
    · exact .of_error ((hround s t hs).trans hr) ((ih.error hr).imp id hreplay)

theorem collect {size : ParseState → Nat} {step : ParseM (Option α)}
    {shrinks : Shrinks size (·.isSome = true) step} (hstep : ∀ s, Local g step s) :
    Local g (collect size step shrinks) s :=
  .collectFrom hstep [] s

theorem inNewScope {x : ParseM α} (h : ∀ s, Local g x s) : Local g (inNewScope x) s := by
  have henter : ∀ s', Level s s' →
      Level { s with scopes := s.scopes.push } { s' with scopes := s'.scopes.push } ∧
        s'.tokens.scanner = s'.tokens.scanner :=
    fun _ h => ⟨⟨h.ahead, congrArg Scopes.push h.scopes, h.depth, h.previous⟩, rfl⟩
  have hexit : ∀ t t', Level t t' →
      Level { t with scopes := t.scopes.pop } { t' with scopes := t'.scopes.pop } ∧
        t'.tokens.scanner = t'.tokens.scanner :=
    fun _ _ h => ⟨⟨h.ahead, congrArg Scopes.pop h.scopes, h.depth, h.previous⟩, rfl⟩
  have hx := h { s with scopes := s.scopes.push }
  rcases hr : x { s with scopes := s.scopes.push } with ⟨a, t⟩ | ⟨e, t⟩
  · have hy : ∀ s' t', x { s' with scopes := s'.scopes.push } = .ok a t' →
        Grammar.inNewScope x s' = .ok a { t' with scopes := t'.scopes.pop } := by
      intro s' t' h
      simp only [Grammar.inNewScope, h]
    exact .of_ok (hy s t hr) ((hx.ok hr).around _ _ henter (hexit t) (fun _ hp => hp) hy)
  · have hy : ∀ s' t', x { s' with scopes := s'.scopes.push } = .error e t' →
        Grammar.inNewScope x s' = .error e { t' with scopes := t'.scopes.pop } := by
      intro s' t' h
      simp only [Grammar.inNewScope, h]
    exact .of_error (hy s t hr) ((hx.error hr).imp id fun hr =>
      hr.around _ _ henter (hexit t) (fun _ hp => hp) hy)

theorem notingFailure {x : ParseM α} (hx : Local g x s) : Local g (notingFailure x) s := by
  rcases hr : x s with ⟨a, t⟩ | ⟨e, t⟩
  · have hy : ∀ s' t', x s' = .ok a t' → Grammar.notingFailure x s' = .ok a t' := by
      intro s' t' h
      simp only [Grammar.notingFailure, h]
    exact .of_ok (hy s t hr) ((hx.ok hr).same hy)
  · have hy : ∀ s' t', x s' = .error e t' →
        Grammar.notingFailure x s' = .error e (t'.note (.stopped e)) := by
      intro s' t' h
      simp only [Grammar.notingFailure, h]
    refine .of_error (hy s t hr) ((hx.error hr).imp id fun hr => ?_)
    refine hr.around id (·.note (.stopped e)) (fun _ h => ⟨h, rfl⟩)
      (fun _ h => ⟨⟨h.ahead, h.scopes, h.depth, h.previous⟩, rfl⟩) (fun tokens hp => ?_) hy
    obtain ⟨taken, ht, hne, heq⟩ := hp
    refine ⟨taken, ?_, hne, heq⟩
    rw [← List.append_nil taken]
    exact ht.trans (.note _ (.refl _))

end Local

/-! ## Tokens -/

theorem local_lookahead : Local g g.lookahead s := by
  rcases hr : g.lookahead s with ⟨token, t⟩ | ⟨e, t⟩
  · obtain ⟨w, hw, rfl⟩ := ofTokens_eq_ok hr
    obtain ⟨tokens, -, heq⟩ := passes_of_lookahead hw
    refine .of_ok hr ⟨tokens, ⟨[], .look hw (.refl _), List.forall_mem_nil _, heq⟩, ?_⟩
    intro s' u hs hpass
    have hahead := (TokenStream.lookahead_eq_ok hw).1
    unfold TokenStream.lookahead at hw
    unfold Grammar.lookahead ofTokens TokenStream.lookahead
    rw [hs.ahead]
    split at hw
    · next found ha =>
      cases hw
      rw [ha] at heq
      obtain rfl := List.append_cancel_left (heq.trans (List.append_nil _).symm)
      exact ⟨s', rfl, hs, hpass.eq_of_nil.symm⟩
    · next ha =>
      rw [ha, hahead] at heq
      obtain rfl : tokens = [token] := heq
      obtain ⟨w', hw', -, rfl⟩ := scan_of_passes hpass
      simp only [hw']
      exact ⟨_, rfl, ⟨hahead.symm, hs.scopes, hs.depth, hs.previous⟩, rfl⟩
  · refine .of_error hr (.inl ?_)
    exact failsBy_ofTokens (E := fun e _ => e.Lexical) (fun _ _ => lexical_of_lookahead) _ _ hr

theorem local_currentKind : Local g g.currentKind s := .map local_lookahead

theorem local_currentLine : Local g g.currentLine s := .map local_lookahead

theorem local_consume {token : Token} (ha : s.tokens.ahead = some token)
    (hk : token.kind ≠ .eof) : Local g g.consume s := by
  have hpulls : Pulls g s [] (s.behind token) := by
    refine ⟨[token], (advance_behind ha).takes, List.forall_mem_singleton.mpr hk, ?_⟩
    rw [ha]
    rfl
  refine .of_ok (consume_of_ahead g ha) (.of_still (·.behind token) hpulls fun s' hs => ?_)
  exact ⟨consume_of_ahead g (hs.ahead.trans ha), ⟨rfl, hs.scopes, hs.depth, rfl⟩, rfl⟩

theorem local_accept {kind : Kind} (hk : kind ≠ .eof) : Local g (g.accept kind) s := by
  refine .bind local_currentKind fun k t hr => ?_
  obtain ⟨token, rfl, -, ha⟩ := advance_of_currentKind hr
  split
  · next he => exact .bind (local_consume ha (he ▸ hk)) fun _ _ _ => .pure
  · exact .pure

theorem local_expectOr {kind : Kind} (hk : kind ≠ .eof) (cause : Cause) :
    Local g (g.expectOr kind cause) s := by
  refine .bind local_lookahead fun token t hr => ?_
  obtain ⟨-, ha⟩ := advance_of_lookahead hr
  split
  · next he => exact local_consume ha (he ▸ hk)
  · exact .bind .note fun _ _ _ => .refuse

theorem local_discard_expectOr {kind : Kind} (hk : kind ≠ .eof) (cause : Cause) :
    Local g (discard (g.expectOr kind cause)) s := .map (local_expectOr hk cause)

theorem local_exceedDepth : Local g (g.exceedDepth : ParseM α) s :=
  .bind .deepen fun _ _ _ => .bind local_currentLine fun _ _ _ => .bind .note fun _ _ _ => .refuse

theorem local_exceedHeight {line : UInt32} : Local g (g.exceedHeight line : ParseM α) s :=
  .bind .note fun _ _ _ => .refuse

end ExprLang.Grammar
