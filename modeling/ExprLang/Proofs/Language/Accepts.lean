import ExprLang.Grammar.Program
import ExprLang.Proofs.Parse.Runs

/-!
# Failures that are no errors of form

An action is judged by the tokens in front of it alone. It may fail for what a program means or for
how deep it is nested, and has to succeed otherwise.

* `Tolerated`: those failures.
* `Accepts`: in front of given tokens the action succeeds but for them, and what is left then.
* `Accepts.bind`, `accepts_lookahead`, `accepts_expectOr`, `accepts_collect`: the steps.
-/

namespace ExprLang.Grammar

/-- A failure for what a program means, or because it is nested too deeply. -/
def Tolerated (maxDepth : Nat) (e : Failure) : Prop :=
  ∃ d, e = .refused d ∧ (d.cause.category = .semantic ∨ d.cause = .nestingTooDeep maxDepth)

variable {g : Grammar} {last : Token} {α β : Type}

/-- In front of `tokens` the action fails for a tolerated reason, or ends in front of others that
`Q` describes together with its value. -/
def Accepts (g : Grammar) (last : Token) (x : ParseM α) (tokens : List Token)
    (Q : α → List Token → Prop) : Prop :=
  ∀ s, Before g last tokens s →
    Runs (Tolerated g.maxDepth) x s fun a t => ∃ rest, Before g last rest t ∧ Q a rest

/-! ## Composed actions -/

theorem Accepts.pure {a : α} {tokens : List Token} {Q : α → List Token → Prop}
    (h : Q a tokens) : Accepts g last (Pure.pure a) tokens Q :=
  fun _ hs => ⟨tokens, hs, h⟩

theorem Accepts.mono {x : ParseM α} {tokens : List Token} {P Q : α → List Token → Prop}
    (h : Accepts g last x tokens P) (hq : ∀ a rest, P a rest → Q a rest) :
    Accepts g last x tokens Q :=
  fun s hs => (h s hs).mono fun a _ ⟨rest, ht, hp⟩ => ⟨rest, ht, hq a rest hp⟩

theorem Accepts.bind {x : ParseM α} {f : α → ParseM β} {tokens : List Token}
    {P : α → List Token → Prop} {Q : β → List Token → Prop} (h : Accepts g last x tokens P)
    (hf : ∀ a rest, P a rest → Accepts g last (f a) rest Q) :
    Accepts g last (x >>= f) tokens Q :=
  fun s hs => (h s hs).bind fun a t ⟨rest, ht, hp⟩ => hf a rest hp t ht

theorem Accepts.map {x : ParseM α} {f : α → β} {tokens : List Token}
    {P : α → List Token → Prop} {Q : β → List Token → Prop} (h : Accepts g last x tokens P)
    (hf : ∀ a rest, P a rest → Q (f a) rest) : Accepts g last (f <$> x) tokens Q :=
  fun s hs => (h s hs).map fun a _ ⟨rest, ht, hp⟩ => ⟨rest, ht, hf a rest hp⟩

theorem accepts_refuse {cause : Cause} (h : cause.category = .semantic) {line : UInt32}
    {tokens : List Token} {Q : α → List Token → Prop} :
    Accepts g last (refuse cause line) tokens Q :=
  fun _ _ => ⟨⟨cause, line⟩, rfl, .inl h⟩

theorem accepts_throw {d : Diagnostic} (h : d.cause.category = .semantic) {tokens : List Token}
    {Q : α → List Token → Prop} : Accepts g last (throw (.refused d)) tokens Q :=
  fun _ _ => ⟨d, rfl, .inl h⟩

theorem accepts_refuse_nesting {line : UInt32} {tokens : List Token} {Q : α → List Token → Prop} :
    Accepts g last (refuse (.nestingTooDeep g.maxDepth) line) tokens Q :=
  fun _ _ => ⟨⟨_, line⟩, rfl, .inr rfl⟩

theorem accepts_get {tokens : List Token} :
    Accepts g last MonadState.get tokens fun _ rest => tokens = rest :=
  fun _ hs => ⟨tokens, hs, rfl⟩

theorem accepts_modify {f : ParseState → ParseState} {tokens : List Token}
    (hf : ∀ s, (f s).tokens.upcoming g.vocabulary = s.tokens.upcoming g.vocabulary) :
    Accepts g last (modify f : ParseM Unit) tokens fun _ rest => tokens = rest :=
  fun s hs => ⟨tokens, (hf s).trans hs, rfl⟩

theorem accepts_note {e : Event} {tokens : List Token} :
    Accepts g last (note e) tokens fun _ rest => tokens = rest :=
  accepts_modify fun _ => rfl

theorem accepts_deepen {tokens : List Token} :
    Accepts g last deepen tokens fun _ rest => tokens = rest :=
  accepts_modify fun _ => rfl

theorem accepts_beginRound {left : Tree} {height : Nat} {tokens : List Token} :
    Accepts g last (beginRound left height) tokens fun _ rest => tokens = rest :=
  accepts_modify fun _ => rfl

theorem accepts_leave {tokens : List Token} :
    Accepts g last leave tokens fun _ rest => tokens = rest :=
  accepts_modify fun _ => rfl

/-! ## Tokens -/

theorem accepts_lookahead {tokens : List Token} :
    Accepts g last g.lookahead tokens fun a rest => firstOf tokens last = a ∧ tokens = rest :=
  fun _ hs => (runs_lookahead hs).mono fun _ _ ⟨ha, ht, _⟩ => ⟨tokens, ht, ha, rfl⟩

theorem accepts_currentKind {tokens : List Token} :
    Accepts g last g.currentKind tokens fun a rest =>
      (firstOf tokens last).kind = a ∧ tokens = rest :=
  fun _ hs => (runs_currentKind hs).mono fun _ _ ⟨ha, ht, _⟩ => ⟨tokens, ht, ha, rfl⟩

theorem accepts_consume {token : Token} {tokens : List Token} :
    Accepts g last g.consume (token :: tokens) fun a rest => token = a ∧ tokens = rest :=
  fun _ hs => (runs_consume hs).mono fun _ _ ⟨ha, ht, _⟩ => ⟨tokens, ht, ha, rfl⟩

theorem accepts_accept {kind : Kind} {token : Token} {tokens : List Token}
    (hk : token.kind = kind) :
    Accepts g last (g.accept kind) (token :: tokens) fun a rest =>
      some token = a ∧ tokens = rest :=
  fun _ hs => (runs_accept hs hk).mono fun _ _ ⟨ha, ht, _⟩ => ⟨tokens, ht, ha, rfl⟩

theorem accepts_accept_other {kind : Kind} {tokens : List Token}
    (hk : (firstOf tokens last).kind ≠ kind) :
    Accepts g last (g.accept kind) tokens fun a rest => none = a ∧ tokens = rest :=
  fun _ hs => (runs_accept_other hs hk).mono fun _ _ ⟨ha, ht, _⟩ => ⟨tokens, ht, ha, rfl⟩

theorem accepts_expectOr {kind : Kind} {cause : Cause} {token : Token} {tokens : List Token}
    (hk : token.kind = kind) :
    Accepts g last (g.expectOr kind cause) (token :: tokens) fun a rest =>
      token = a ∧ tokens = rest :=
  fun _ hs => (runs_expectOr hs hk).mono fun _ _ ⟨ha, ht, _⟩ => ⟨tokens, ht, ha, rfl⟩

theorem accepts_discard_expectOr {kind : Kind} {cause : Cause} {token : Token}
    {tokens : List Token} (hk : token.kind = kind) :
    Accepts g last (discard (g.expectOr kind cause)) (token :: tokens) fun _ rest =>
      tokens = rest :=
  .map (accepts_expectOr hk) fun _ _ h => h.2

/-! ## Nesting -/

theorem accepts_exceedDepth {tokens : List Token} {Q : α → List Token → Prop} :
    Accepts g last g.exceedDepth tokens Q := by
  refine .bind accepts_deepen ?_
  rintro _ _ rfl
  refine .bind (P := fun _ rest => tokens = rest) (.map accepts_lookahead fun _ _ h => h.2) ?_
  rintro _ _ rfl
  refine .bind accepts_note ?_
  rintro _ _ rfl
  exact accepts_refuse_nesting

theorem accepts_exceedHeight {line : UInt32} {tokens : List Token} {Q : α → List Token → Prop} :
    Accepts g last (g.exceedHeight line) tokens Q := by
  refine .bind accepts_note ?_
  rintro _ _ rfl
  exact accepts_refuse_nesting

theorem accepts_inNewScope {x : ParseM α} {tokens : List Token} {Q : α → List Token → Prop}
    (h : Accepts g last x tokens Q) : Accepts g last (inNewScope x) tokens Q := by
  intro s hs
  have hx := h { s with scopes := s.scopes.push } hs
  unfold Runs at hx ⊢
  unfold inNewScope
  rcases hr : x { s with scopes := s.scopes.push } with ⟨a, t⟩ | ⟨e, t⟩ <;> rw [hr] at hx
  · exact hx
  · exact hx

theorem accepts_notingFailure {x : ParseM α} {tokens : List Token} {Q : α → List Token → Prop}
    (h : Accepts g last x tokens Q) : Accepts g last (notingFailure x) tokens Q := by
  intro s hs
  have hx := h s hs
  unfold Runs at hx ⊢
  unfold notingFailure
  rcases hr : x s with ⟨a, t⟩ | ⟨e, t⟩ <;> rw [hr] at hx
  · exact hx
  · exact hx

/-- A loop over tokens: what its rounds keep holds in front of the last, which ends it. -/
theorem accepts_collect {size : ParseState → Nat} {step : ParseM (Option α)}
    {shrinks : Shrinks size (·.isSome = true) step} {tokens : List Token}
    {P : List Token → Prop} {Q : List α → List Token → Prop} (hp : P tokens)
    (hstep : ∀ found tokens, P tokens → Accepts g last step tokens fun r rest =>
      match r with
      | some _ => P rest
      | none => Q found rest) :
    Accepts g last (collect size step shrinks) tokens Q := by
  intro s hs
  refine runs_collect (P := fun _ t => ∃ rest, Before g last rest t ∧ P rest) ⟨tokens, hs, hp⟩ ?_
  rintro found t ⟨rest, ht, hrest⟩
  refine (hstep found rest hrest t ht).mono ?_
  rintro (_ | a) u h
  · exact h
  · exact h

end ExprLang.Grammar
