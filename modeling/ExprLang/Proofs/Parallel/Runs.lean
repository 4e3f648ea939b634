import Mathlib.Data.List.Forall2
import ExprLang.Diagnostic
import ExprLang.Progress

/-!
# Runs side by side

A relational logic for actions that may fail: two actions run from related states, and what they
yield is related again. The first may give up earlier than the second, if it does so for a reason
that is tolerated; then nothing is said of the second.

* `Matching`: the results of two runs go together.
* `Parallel`: two actions do so from all related states.
* `Parallel.pure`, `Parallel.bind`, …: one rule for each way to compose actions, and
  `Parallel.collect` for loops.
-/

namespace ExprLang

variable {σ α β γ δ : Type} {states : σ → σ → Prop} {failures : Failure → Failure → Prop}
  {tolerated : Failure → Prop}

/-- Two results that go together: related values, related failures, or a failure of the first that
is tolerated. -/
inductive Matching (states : σ → σ → Prop) (failures : Failure → Failure → Prop)
    (tolerated : Failure → Prop) (Q : α → β → Prop) :
    EStateM.Result Failure σ α → EStateM.Result Failure σ β → Prop
  | ok {a : α} {b : β} {s t : σ} (values : Q a b) (behind : states s t) :
      Matching states failures tolerated Q (.ok a s) (.ok b t)
  | failed {e e' : Failure} {s t : σ} (same : failures e e') :
      Matching states failures tolerated Q (.error e s) (.error e' t)
  | cut {e : Failure} {s : σ} {r : EStateM.Result Failure σ β} (early : tolerated e) :
      Matching states failures tolerated Q (.error e s) r

/-- From related states the two actions have results that go together. -/
def Parallel (states : σ → σ → Prop) (failures : Failure → Failure → Prop)
    (tolerated : Failure → Prop) (x : EStateM Failure σ α) (y : EStateM Failure σ β)
    (Q : α → β → Prop) : Prop :=
  ∀ s t, states s t → Matching states failures tolerated Q (x s) (y t)

namespace Parallel

variable {P : α → β → Prop} {Q : γ → δ → Prop} {x : EStateM Failure σ α} {y : EStateM Failure σ β}

theorem pure {a : α} {b : β} (h : P a b) :
    Parallel states failures tolerated (Pure.pure a) (Pure.pure b) P :=
  fun _ _ hst => .ok h hst

theorem refuse {cause : Cause} {line line' : UInt32}
    (h : failures (.refused ⟨cause, line⟩) (.refused ⟨cause, line'⟩)) :
    Parallel states failures tolerated (ExprLang.refuse cause line) (ExprLang.refuse cause line')
      P :=
  fun _ _ _ => .failed h

theorem throw {e e' : Failure} (h : failures e e') :
    Parallel states failures tolerated (MonadExcept.throw e) (MonadExcept.throw e') P :=
  fun _ _ _ => .failed h

theorem get : Parallel states failures tolerated MonadState.get MonadState.get states :=
  fun _ _ hst => .ok hst hst

theorem modify {f k : σ → σ} (h : ∀ s t, states s t → states (f s) (k t)) :
    Parallel states failures tolerated (modify f) (modify k) fun _ _ => True :=
  fun s t hst => .ok trivial (h s t hst)

theorem bind {f : α → EStateM Failure σ γ} {k : β → EStateM Failure σ δ}
    (hx : Parallel states failures tolerated x y P)
    (hf : ∀ a b, P a b → Parallel states failures tolerated (f a) (k b) Q) :
    Parallel states failures tolerated (x >>= f) (y >>= k) Q := by
  intro s t hst
  simp only [Bind.bind, EStateM.bind]
  match x s, y t, hx s t hst with
  | _, _, .ok values behind => exact hf _ _ values _ _ behind
  | _, _, .failed same => exact .failed same
  | _, _, .cut early => exact .cut early

theorem map {f : α → γ} {k : β → δ} (hx : Parallel states failures tolerated x y P)
    (hf : ∀ a b, P a b → Q (f a) (k b)) :
    Parallel states failures tolerated (f <$> x) (k <$> y) Q := by
  intro s t hst
  simp only [Functor.map, EStateM.map]
  match x s, y t, hx s t hst with
  | _, _, .ok values behind => exact .ok (hf _ _ values) behind
  | _, _, .failed same => exact .failed same
  | _, _, .cut early => exact .cut early

theorem discard_left (hx : Parallel states failures tolerated x y P) :
    Parallel states failures tolerated (discard x) y fun _ _ => True := by
  intro s t hst
  change Matching _ _ _ _ (EStateM.map (fun _ => ()) x s) _
  unfold EStateM.map
  match x s, y t, hx s t hst with
  | _, _, .ok _ behind => exact .ok trivial behind
  | _, _, .failed same => exact .failed same
  | _, _, .cut early => exact .cut early

theorem discard (hx : Parallel states failures tolerated x y P) :
    Parallel states failures tolerated (discard x) (discard y) fun _ _ => True :=
  hx.map fun _ _ _ => trivial

theorem mono {P' : α → β → Prop} (hx : Parallel states failures tolerated x y P)
    (h : ∀ a b, P a b → P' a b) : Parallel states failures tolerated x y P' := by
  intro s t hst
  match x s, y t, hx s t hst with
  | _, _, .ok values behind => exact .ok (h _ _ values) behind
  | _, _, .failed same => exact .failed same
  | _, _, .cut early => exact .cut early

theorem ite {c d : Prop} [Decidable c] [Decidable d] {x' : EStateM Failure σ α}
    {y' : EStateM Failure σ β} (hcd : c ↔ d)
    (ht : c → Parallel states failures tolerated x y P)
    (he : ¬ c → Parallel states failures tolerated x' y' P) :
    Parallel states failures tolerated (if c then x else x') (if d then y else y') P := by
  by_cases hc : c
  · rw [if_pos hc, if_pos (hcd.mp hc)]
    exact ht hc
  · rw [if_neg hc, if_neg (mt hcd.mpr hc)]
    exact he hc

/-! ## Loops -/

/-- A loop takes one round after the other. -/
theorem collectFrom_eq {size : σ → Nat} {step : EStateM Failure σ (Option α)}
    {shrinks : Shrinks size (·.isSome = true) step} (found : List α) (s : σ) :
    collectFrom size step shrinks found s =
      match step s with
      | .error e t => .error e t
      | .ok none t => .ok found.reverse t
      | .ok (some a) t => collectFrom size step shrinks (a :: found) t := by
  rw [collectFrom]
  split <;> simp_all

theorem collectFrom {size : σ → Nat} {step : EStateM Failure σ (Option α)}
    {step' : EStateM Failure σ (Option β)} {shrinks : Shrinks size (·.isSome = true) step}
    {shrinks' : Shrinks size (·.isSome = true) step'}
    (hstep : Parallel states failures tolerated step step' (Option.Rel P)) {found : List α}
    {found' : List β} (hfound : List.Forall₂ P found.reverse found'.reverse) :
    Parallel states failures tolerated (collectFrom size step shrinks found)
      (ExprLang.collectFrom size step' shrinks' found') (List.Forall₂ P) := by
  intro s t hst
  fun_induction ExprLang.collectFrom size step shrinks found s generalizing found' t with
  | case1 found s e u hs =>
    have h := hs ▸ hstep s t hst
    rw [collectFrom_eq]
    generalize step' t = r at h ⊢
    cases h with
    | failed same => exact .failed same
    | cut early => exact .cut early
  | case2 found s u hs =>
    have h := hs ▸ hstep s t hst
    rw [collectFrom_eq]
    generalize step' t = r at h ⊢
    cases h with
    | ok values behind =>
      cases values
      exact .ok hfound behind
  | case3 found s a u hs ih =>
    have h := hs ▸ hstep s t hst
    rw [collectFrom_eq found']
    generalize step' t = r at h ⊢
    cases h with
    | ok values behind =>
      cases values with
      | some hab =>
        refine ih ?_ _ behind
        rw [List.reverse_cons, List.reverse_cons]
        exact List.rel_append hfound (.cons hab .nil)

theorem collect {size : σ → Nat} {step : EStateM Failure σ (Option α)}
    {step' : EStateM Failure σ (Option β)} {shrinks : Shrinks size (·.isSome = true) step}
    {shrinks' : Shrinks size (·.isSome = true) step'}
    (hstep : Parallel states failures tolerated step step' (Option.Rel P)) :
    Parallel states failures tolerated (collect size step shrinks)
      (ExprLang.collect size step' shrinks') (List.Forall₂ P) :=
  collectFrom hstep .nil

end Parallel

end ExprLang
