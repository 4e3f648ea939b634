import ExprLang.Grammar.State
import ExprLang.Proofs.Parse.Advance

/-!
# Runs with a given input

What the steps of a parse do in front of given tokens. Where `Advance` reads off a success what it
took, these statements say that the step succeeds.

* `Before`: a state in front of given tokens and an `eof`.
* `Runs`: an action fails for a reason that is tolerated, or succeeds as described. With no reason
  tolerated it succeeds.
* `runs_lookahead`, `runs_consume`, `runs_accept`, `runs_expectOr`: the steps.
* `Before.of_advance`, `Before.exists_behind`: the states behind tokens that were taken.
-/

namespace ExprLang.Grammar

open TokenStream

variable {g : Grammar} {last : Token} {tolerated : Failure → Prop} {α β : Type}

/-- The state stands in front of `tokens`, and behind these comes the `eof` `last`. -/
def Before (g : Grammar) (last : Token) (tokens : List Token) (s : ParseState) : Prop :=
  s.tokens.upcoming g.vocabulary = (tokens, .ok last)

/-- From `s` the action fails for a tolerated reason, or succeeds with what `Q` describes. -/
def Runs (tolerated : Failure → Prop) (x : ParseM α) (s : ParseState)
    (Q : α → ParseState → Prop) : Prop :=
  match x s with
  | .ok a t => Q a t
  | .error e _ => tolerated e

/-! ## Composed actions -/

theorem Runs.mono {x : ParseM α} {s : ParseState} {P Q : α → ParseState → Prop}
    (h : Runs tolerated x s P) (hq : ∀ a t, P a t → Q a t) : Runs tolerated x s Q := by
  unfold Runs at *
  split <;> simp_all

theorem Runs.bind {x : ParseM α} {f : α → ParseM β} {s : ParseState}
    {P : α → ParseState → Prop} {Q : β → ParseState → Prop} (h : Runs tolerated x s P)
    (hf : ∀ a t, P a t → Runs tolerated (f a) t Q) : Runs tolerated (x >>= f) s Q := by
  unfold Runs at h ⊢
  simp only [Bind.bind, EStateM.bind]
  rcases hx : x s with ⟨a, t⟩ | ⟨e, t⟩ <;> rw [hx] at h
  · exact hf a t h
  · exact h

theorem Runs.map {x : ParseM α} {f : α → β} {s : ParseState} {P : α → ParseState → Prop}
    {Q : β → ParseState → Prop} (h : Runs tolerated x s P) (hf : ∀ a t, P a t → Q (f a) t) :
    Runs tolerated (f <$> x) s Q := by
  unfold Runs at h ⊢
  simp only [Functor.map, EStateM.map]
  rcases hx : x s with ⟨a, t⟩ | ⟨e, t⟩ <;> rw [hx] at h
  · exact hf a t h
  · exact h

theorem Runs.pure {a : α} {s : ParseState} {Q : α → ParseState → Prop} (h : Q a s) :
    Runs tolerated (Pure.pure a) s Q := h

theorem runs_get (s : ParseState) :
    Runs tolerated MonadState.get s fun a t => s = a ∧ s = t := ⟨rfl, rfl⟩

theorem runs_modify (f : ParseState → ParseState) (s : ParseState) :
    Runs tolerated (modify f) s fun _ t => f s = t := rfl

theorem Runs.exists_ok {x : ParseM α} {s : ParseState} {Q : α → ParseState → Prop}
    (h : Runs (fun _ => False) x s Q) : ∃ a t, x s = .ok a t ∧ Q a t := by
  unfold Runs at h
  rcases hx : x s with ⟨a, t⟩ | ⟨e, t⟩ <;> rw [hx] at h
  · exact ⟨a, t, rfl, h⟩
  · exact h.elim

/-! ## Tokens -/

theorem runs_lookahead {tokens : List Token} {s : ParseState} (h : Before g last tokens s) :
    Runs tolerated g.lookahead s fun a t =>
      firstOf tokens last = a ∧ Before g last tokens t ∧ t.scopes = s.scopes := by
  unfold Runs lookahead ofTokens
  cases tokens with
  | nil =>
    obtain ⟨t, hl, -, -⟩ := exists_lookahead_eof h
    rw [hl]
    exact ⟨rfl, (upcoming_of_lookahead hl).1.trans h, rfl⟩
  | cons token rest =>
    obtain ⟨t, hl, -, ht⟩ := exists_lookahead h
    rw [hl]
    exact ⟨rfl, ht.trans h, rfl⟩

theorem runs_consume {token : Token} {tokens : List Token} {s : ParseState}
    (h : Before g last (token :: tokens) s) :
    Runs tolerated g.consume s fun a t =>
      token = a ∧ Before g last tokens t ∧ t.scopes = s.scopes := by
  rcases hc : TokenStream.consume g.vocabulary s.tokens with ⟨found, t⟩ | ⟨e, t⟩
  · have hu := upcoming_of_consume hc
    rw [h] at hu
    unfold Upcoming.cons at hu
    split at hu
    · cases hu
    · obtain ⟨hcons, hend⟩ := Prod.mk.inj hu
      obtain ⟨rfl, rfl⟩ := List.cons.inj hcons
      refine .bind (P := fun a t' => token = a ∧ t' = { s with tokens := t }) ?_ ?_
      · unfold Runs ofTokens
        simp only [hc, and_self]
      · rintro _ _ ⟨rfl, rfl⟩
        exact ⟨rfl, Prod.ext rfl hend.symm, rfl⟩
  · have hu := upcoming_of_consume_error hc
    rw [h] at hu
    cases hu

theorem runs_currentKind {tokens : List Token} {s : ParseState} (h : Before g last tokens s) :
    Runs tolerated g.currentKind s fun a t =>
      (firstOf tokens last).kind = a ∧ Before g last tokens t ∧ t.scopes = s.scopes := by
  refine .map (runs_lookahead h) ?_
  rintro _ t ⟨rfl, ht⟩
  exact ⟨rfl, ht⟩

theorem runs_accept {kind : Kind} {token : Token} {tokens : List Token} {s : ParseState}
    (h : Before g last (token :: tokens) s) (hk : token.kind = kind) :
    Runs tolerated (g.accept kind) s fun a t =>
      some token = a ∧ Before g last tokens t ∧ t.scopes = s.scopes := by
  refine .bind (runs_currentKind h) ?_
  rintro _ t ⟨rfl, ht, hts⟩
  rw [firstOf_cons, if_pos hk]
  refine .bind (runs_consume ht) ?_
  rintro _ u ⟨rfl, hu, hus⟩
  exact ⟨rfl, hu, hus.trans hts⟩

theorem runs_accept_other {kind : Kind} {tokens : List Token} {s : ParseState}
    (h : Before g last tokens s) (hk : (firstOf tokens last).kind ≠ kind) :
    Runs tolerated (g.accept kind) s fun a t =>
      none = a ∧ Before g last tokens t ∧ t.scopes = s.scopes := by
  refine .bind (runs_currentKind h) ?_
  rintro _ t ⟨rfl, ht⟩
  rw [if_neg hk]
  exact ⟨rfl, ht⟩

theorem runs_expectOr {kind : Kind} {cause : Cause} {token : Token} {tokens : List Token}
    {s : ParseState} (h : Before g last (token :: tokens) s) (hk : token.kind = kind) :
    Runs tolerated (g.expectOr kind cause) s fun a t =>
      token = a ∧ Before g last tokens t ∧ t.scopes = s.scopes := by
  refine .bind (runs_lookahead h) ?_
  rintro _ t ⟨rfl, ht, hts⟩
  rw [firstOf_cons, if_pos hk]
  refine (runs_consume ht).mono ?_
  rintro _ u ⟨rfl, hu, hus⟩
  exact ⟨rfl, hu, hus.trans hts⟩

/-! ## States in front of tokens -/

theorem Before.nextIs {tokens : List Token} {s : ParseState} (h : Before g last tokens s) :
    NextIs s (firstOf tokens last) := by
  intro token ha
  have hu := (TokenStream.upcoming_of_ahead ha).symm.trans h
  by_cases hk : token.kind = .eof
  · rw [Upcoming.cons_of_eof hk] at hu
    cases hu
    rfl
  · rw [Upcoming.cons_of_ne hk] at hu
    rw [← (Prod.mk.inj hu).1, firstOf_cons]

theorem exists_nextIs (s : ParseState) : ∃ next, NextIs s next :=
  ⟨s.tokens.ahead.getD default, fun token h => by rw [h]; rfl⟩

theorem Before.of_advance {tokens all : List Token} {s t : ParseState} (h : Before g last all s)
    (hst : Advance g s tokens t) (hne : ∀ token ∈ tokens, token.kind ≠ .eof) :
    ∃ rest, all = tokens ++ rest ∧ Before g last rest t := by
  have hu := (hst.takes.upcoming hne).symm.trans h
  obtain ⟨htokens, hlast⟩ := Prod.mk.inj hu
  exact ⟨_, htokens.symm, Prod.ext rfl hlast⟩

/-- Behind some of the tokens there is a state in front of the others. -/
theorem Before.exists_behind {xs ys : List Token} {s : ParseState}
    (h : Before g last (xs ++ ys) s) : ∃ t, Before g last ys t ∧ t.scopes = s.scopes := by
  induction xs generalizing s with
  | nil => exact ⟨s, h, rfl⟩
  | cons token xs ih =>
    obtain ⟨_, t, -, -, ht, hscopes⟩ := (runs_consume h).exists_ok
    obtain ⟨u, hu, hus⟩ := ih ht
    exact ⟨u, hu, hus.trans hscopes⟩

/-! ## Repetition -/

/-- A loop keeps what its rounds keep, and ends with what the last of them says. -/
theorem runs_collectFrom {size : ParseState → Nat} {step : ParseM (Option α)}
    {shrinks : Shrinks size (·.isSome = true) step} {s : ParseState} {found : List α}
    {P : List α → ParseState → Prop} {Q : List α → ParseState → Prop} (hs : P found.reverse s)
    (hstep : ∀ found s, P found s → Runs tolerated step s fun r t =>
      match r with
      | some a => P (found ++ [a]) t
      | none => Q found t) :
    Runs tolerated (collectFrom size step shrinks found) s Q := by
  unfold Runs
  fun_induction collectFrom size step shrinks found s with
  | case1 found s e t h =>
    have := hstep _ _ hs
    rwa [Runs, h] at this
  | case2 found s t h =>
    have := hstep _ _ hs
    rwa [Runs, h] at this
  | case3 found s a t h ih =>
    have := hstep _ _ hs
    rw [Runs, h] at this
    exact ih (List.reverse_cons ▸ this)

theorem runs_collect {size : ParseState → Nat} {step : ParseM (Option α)}
    {shrinks : Shrinks size (·.isSome = true) step} {s : ParseState}
    {P : List α → ParseState → Prop} {Q : List α → ParseState → Prop} (hs : P [] s)
    (hstep : ∀ found s, P found s → Runs tolerated step s fun r t =>
      match r with
      | some a => P (found ++ [a]) t
      | none => Q found t) :
    Runs tolerated (collect size step shrinks) s Q :=
  runs_collectFrom hs hstep

end ExprLang.Grammar
