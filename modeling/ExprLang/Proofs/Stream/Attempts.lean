import ExprLang.Progress

/-!
# Attempts one after the other

Actions that may fail, performed one after the other whatever became of the earlier ones. Each goes
on in the state that the one before it has left, be it by a failure.

* `attempt`, `attempts`: what actions come to, and the state they leave.
* `attempt_map`, `attempt_bind`: composed actions.
* `attempts_append`: attempts in two parts.
* `attempts_of_related`: attempts on two sides whose single steps come to the same.
-/

namespace ExprLang

variable {ε σ σ' α β ι : Type}

/-- What an action comes to, and the state it leaves. -/
def attempt (x : EStateM ε σ α) (s : σ) : Except ε α × σ :=
  match x s with
  | .ok a t => (.ok a, t)
  | .error e t => (.error e, t)

/-- What actions come to that are performed one after the other, and the state they leave. -/
def attempts (act : ι → EStateM ε σ α) : List ι → σ → List (Except ε α) × σ
  | [], s => ([], s)
  | i :: others, s =>
    let first := attempt (act i) s
    let rest := attempts act others first.2
    (first.1 :: rest.1, rest.2)

theorem attempt_of_ok {x : EStateM ε σ α} {s t : σ} {a : α} (h : x s = .ok a t) :
    attempt x s = (.ok a, t) := by
  simp [attempt, h]

theorem attempt_of_error {x : EStateM ε σ α} {s t : σ} {e : ε} (h : x s = .error e t) :
    attempt x s = (.error e, t) := by
  simp [attempt, h]

theorem attempt_map (f : α → β) (x : EStateM ε σ α) (s : σ) :
    attempt (f <$> x) s = ((attempt x s).1.map f, (attempt x s).2) := by
  simp only [attempt, Functor.map, EStateM.map]
  cases x s <;> rfl

theorem attempt_bind (x : EStateM ε σ α) (f : α → EStateM ε σ β) (s : σ) :
    attempt (x >>= f) s =
      match attempt x s with
      | (.ok a, t) => attempt (f a) t
      | (.error e, t) => (.error e, t) := by
  simp only [attempt, bind, EStateM.bind]
  cases x s <;> rfl

theorem attempts_append (act : ι → EStateM ε σ α) (xs ys : List ι) (s : σ) :
    attempts act (xs ++ ys) s =
      ((attempts act xs s).1 ++ (attempts act ys (attempts act xs s).2).1,
        (attempts act ys (attempts act xs s).2).2) := by
  induction xs generalizing s with
  | nil => rfl
  | cons x xs ih =>
    rw [List.cons_append, attempts, ih]
    rfl

@[simp] theorem length_attempts (act : ι → EStateM ε σ α) (xs : List ι) (s : σ) :
    (attempts act xs s).1.length = xs.length := by
  induction xs generalizing s with
  | nil => rfl
  | cons x xs ih => simp [attempts, ih]

/-- Attempts on two sides whose single steps come to the same come to the same. -/
theorem attempts_of_related {act : ι → EStateM ε σ α} {act' : ι → EStateM ε σ' α}
    {R : σ → σ' → Prop}
    (step : ∀ i s s', R s s' → (attempt (act' i) s').1 = (attempt (act i) s).1 ∧
      R (attempt (act i) s).2 (attempt (act' i) s').2)
    (xs : List ι) {s : σ} {s' : σ'} (h : R s s') :
    (attempts act' xs s').1 = (attempts act xs s).1 ∧
      R (attempts act xs s).2 (attempts act' xs s').2 := by
  induction xs generalizing s s' with
  | nil => exact ⟨rfl, h⟩
  | cons x xs ih =>
    have hfirst := step x s s' h
    have hrest := ih hfirst.2
    simp only [attempts]
    exact ⟨by rw [hfirst.1, hrest.1], hrest.2⟩

end ExprLang
