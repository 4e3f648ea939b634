import ExprLang.Grammar.Program
import ExprLang.Proofs.Lexing.AnySource
import ExprLang.Proofs.Typing.Category

/-!
# Failures of actions

How an action may fail from a given state. What it does up to there are successes, of which
`Advance`, `Reads` and `Forms` tell the tokens.

* `FailsBy`: a failure, if there is one, is as described, together with the state it leaves.
* `FailsBy.bind`, `FailsBy.collect`: composed actions.
* `Failure.TooDeep`, `Failure.OfForm`: the two sorts of syntax errors.
* `Lenient`: neither is described; `failsBy_lookahead`, `failsBy_checkTarget`, …: the actions that
  fail by neither.
-/

namespace ExprLang

variable {ε σ α β : Type} {E : ε → σ → Prop} {s : σ}

/-- From `s` the action fails as `E` describes, if it fails. -/
def FailsBy (E : ε → σ → Prop) (x : EStateM ε σ α) (s : σ) : Prop :=
  ∀ e t, x s = .error e t → E e t

namespace FailsBy

variable {x : EStateM ε σ α}

theorem pure {a : α} : FailsBy E (Pure.pure a) s := nofun

theorem throw {e : ε} (h : E e s) : FailsBy E (MonadExcept.throw e : EStateM ε σ α) s := by
  rintro _ _ ⟨⟩
  exact h

theorem modify {f : σ → σ} : FailsBy E (modify f : EStateM ε σ Unit) s := nofun

theorem bind {f : α → EStateM ε σ β} (hx : FailsBy E x s)
    (hf : ∀ a t, x s = .ok a t → FailsBy E (f a) t) : FailsBy E (x >>= f) s := by
  intro e u h
  simp only [Bind.bind, EStateM.bind] at h
  rcases hr : x s with ⟨a, t⟩ | ⟨e', t⟩ <;> rw [hr] at h
  · exact hf a t hr e u h
  · cases h
    exact hx _ _ hr

theorem get {f : σ → EStateM ε σ β} (h : FailsBy E (f s) s) :
    FailsBy E (MonadState.get >>= f) s := h

theorem map {f : α → β} (hx : FailsBy E x s) : FailsBy E (f <$> x) s := by
  intro e u h
  simp only [Functor.map, EStateM.map] at h
  rcases hr : x s with ⟨a, t⟩ | ⟨e', t⟩ <;> rw [hr] at h
  · cases h
  · cases h
    exact hx _ _ hr

/-- A loop fails as one of its rounds does. What `P` says holds in front of every round. -/
theorem collectFrom {size : σ → Nat} {step : EStateM ε σ (Option α)}
    {shrinks : Shrinks size (·.isSome = true) step} {P : σ → Prop} {found : List α} (hs : P s)
    (hstep : ∀ t, P t → FailsBy E step t)
    (hround : ∀ t a u, P t → step t = .ok (some a) u → P u) :
    FailsBy E (collectFrom size step shrinks found) s := by
  intro e t h
  fun_induction ExprLang.collectFrom size step shrinks found s with
  | case1 found s e' u hs' =>
    cases h
    exact hstep _ hs _ _ hs'
  | case2 => cases h
  | case3 found s a u hs' ih => exact ih (hround _ _ _ hs hs') h

theorem collect {size : σ → Nat} {step : EStateM ε σ (Option α)}
    {shrinks : Shrinks size (·.isSome = true) step} {P : σ → Prop} (hs : P s)
    (hstep : ∀ t, P t → FailsBy E step t)
    (hround : ∀ t a u, P t → step t = .ok (some a) u → P u) :
    FailsBy E (collect size step shrinks) s :=
  collectFrom hs hstep hround

end FailsBy

/-! ## Sorts of failures -/

namespace Failure

/-- The program is refused because it is nested too deeply. -/
def TooDeep (e : Failure) : Prop := ∃ limit line, e = .refused ⟨.nestingTooDeep limit, line⟩

/-- The program is refused for its form: a syntax error, but not that of the nesting limit. -/
def OfForm (e : Failure) : Prop :=
  ∃ d, e = .refused d ∧ d.cause.category = .syntactic ∧ ∀ limit, d.cause ≠ .nestingTooDeep limit

theorem Lexical.not_tooDeep {e : Failure} (h : e.Lexical) : ¬e.TooDeep := by
  rintro ⟨limit, line, rfl⟩
  cases h _ rfl

theorem Lexical.not_ofForm {e : Failure} (h : e.Lexical) : ¬e.OfForm := by
  rintro ⟨d, rfl, hd, -⟩
  rw [h d rfl] at hd
  cases hd

theorem TooDeep.not_ofForm {e : Failure} (h : e.TooDeep) : ¬e.OfForm := by
  obtain ⟨limit, line, rfl⟩ := h
  rintro ⟨_, ⟨⟩, -, hd⟩
  exact hd limit rfl

theorem not_tooDeep_refused {cause : Cause} {line : UInt32}
    (h : ∀ limit, cause ≠ .nestingTooDeep limit) : ¬(refused ⟨cause, line⟩).TooDeep := by
  rintro ⟨limit, _, ⟨⟩⟩
  exact h limit rfl

theorem not_tooDeep_of_semantic {d : Diagnostic} (h : d.cause.category = .semantic) :
    ¬(refused d).TooDeep := by
  rintro ⟨limit, line, ⟨⟩⟩
  cases h

theorem not_ofForm_of_semantic {d : Diagnostic} (h : d.cause.category = .semantic) :
    ¬(refused d).OfForm := by
  rintro ⟨_, ⟨⟩, hd, -⟩
  rw [h] at hd
  cases hd

end Failure

/-! ## Tokens -/

namespace TokenStream

variable {v : Vocabulary} {s t : TokenStream} {e : Failure}

theorem lexical_of_scan (h : scan v s = .error e t) : e.Lexical := by
  unfold scan at h
  have hn := Scanner.next?_onLine v s.scanner
  split at h
  · cases h
  · cases h
  · next hr =>
    cases h
    rwa [hr] at hn

theorem lexical_of_lookahead (h : lookahead v s = .error e t) : e.Lexical := by
  unfold lookahead at h
  split at h
  · cases h
  · split at h
    · cases h
    · next hr =>
      cases h
      exact lexical_of_scan hr

theorem lexical_of_consume (h : consume v s = .error e t) : e.Lexical := by
  unfold consume at h
  split at h
  · cases h
  · exact lexical_of_scan h

end TokenStream

namespace Grammar

variable {g : Grammar} {s : ParseState} {E : Failure → ParseState → Prop}

/-- What a run fails with, if it does. -/
def failureOf {σ α : Type} : EStateM.Result Failure σ α → Option Failure
  | .ok _ _ => none
  | .error e _ => some e

theorem exists_of_failureOf {σ α : Type} {r : EStateM.Result Failure σ α} {e : Failure}
    (h : failureOf r = some e) : ∃ t, r = .error e t := by
  cases r with
  | ok => cases h
  | error e' t =>
    cases h
    exact ⟨t, rfl⟩

theorem failsBy_refuse {α : Type} {cause : Cause} {line : UInt32}
    (h : E (.refused ⟨cause, line⟩) s) :
    FailsBy E (refuse cause line : ParseM α) s := .throw h

theorem failsBy_ofTokens {α : Type} {action : TokenM α}
    (h : ∀ e t, action s.tokens = .error e t → E e { s with tokens := t }) :
    FailsBy E (ofTokens action) s := by
  intro e t hs
  unfold ofTokens at hs
  split at hs
  · cases hs
  · next hr =>
    cases hs
    exact h _ _ hr

/-- Whatever scanning or the meaning of a program makes fail is as described. -/
structure Lenient (E : Failure → ParseState → Prop) : Prop where
  lexical : ∀ e t, e.Lexical → E e t
  semantic : ∀ d t, d.cause.category = .semantic → E (.refused d) t

section

variable (hE : Lenient E)

include hE

theorem failsBy_lookahead : FailsBy E g.lookahead s :=
  failsBy_ofTokens fun _ _ h => hE.lexical _ _ (TokenStream.lexical_of_lookahead h)

theorem failsBy_currentKind : FailsBy E g.currentKind s := .map (failsBy_lookahead hE)

theorem failsBy_currentLine : FailsBy E g.currentLine s := .map (failsBy_lookahead hE)

theorem failsBy_consume : FailsBy E g.consume s :=
  .bind (failsBy_ofTokens fun _ _ h => hE.lexical _ _ (TokenStream.lexical_of_consume h))
    fun _ _ _ => .bind .modify fun _ _ _ => .pure

theorem failsBy_accept {kind : Kind} : FailsBy E (g.accept kind) s := by
  refine .bind (failsBy_currentKind hE) fun k t _ => ?_
  split
  · exact .bind (failsBy_consume hE) fun _ _ _ => .pure
  · exact .pure

/-! ## Names and types -/

theorem failsBy_symbol : FailsBy E g.symbol s := by
  refine .bind (failsBy_consume hE) fun token t _ => .get ?_
  split
  · exact .pure
  · exact failsBy_refuse (hE.semantic _ _ rfl)

theorem failsBy_checkTarget {operator : Token} {target : Tree} :
    FailsBy E (checkTarget operator target) s := by
  unfold checkTarget
  split
  · unfold checkAssignable
    split
    · refine .get ?_
      split
      · split
        · exact .pure
        · exact failsBy_refuse (hE.semantic _ _ rfl)
      · exact failsBy_refuse (hE.semantic _ _ rfl)
    · exact failsBy_refuse (hE.semantic _ _ rfl)
  · exact .pure

theorem failsBy_typed {tree : Tree} : FailsBy E (g.typed tree) s := by
  unfold typed
  split
  · exact .pure
  · next d hd =>
    have hc := category_of_check tree (congrArg Checked.fault hd)
    refine .bind ?_ fun _ _ _ => .throw (hE.semantic _ _ hc)
    unfold noteFault
    split
    · exact .modify
    · exact .pure

theorem failsBy_declare {symbol : Symbol} {line : UInt32} :
    FailsBy E (declare symbol line) s := by
  refine .get ?_
  unfold Scopes.declare
  rcases s.scopes.declare? symbol with _ | scopes
  · exact .throw (hE.semantic _ _ rfl)
  · exact .modify

end

theorem failsBy_inNewScope {α : Type} {x : ParseM α}
    (h : FailsBy (fun e t => E e { t with scopes := t.scopes.pop }) x
      { s with scopes := s.scopes.push }) : FailsBy E (inNewScope x) s := by
  intro e t hs
  unfold inNewScope at hs
  split at hs
  · cases hs
  · next hr =>
    cases hs
    exact h _ _ hr

theorem failsBy_notingFailure {α : Type} {x : ParseM α}
    (h : FailsBy (fun e t => E e (t.note (.stopped e))) x s) :
    FailsBy E (notingFailure x) s := by
  intro e t hs
  unfold notingFailure at hs
  split at hs
  · cases hs
  · next hr =>
    cases hs
    exact h _ _ hr

end Grammar

end ExprLang
