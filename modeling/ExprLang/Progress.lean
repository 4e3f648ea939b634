/-!
# Progress

Actions that may fail and keep their state then (`EStateM`), measured by a size of the state.

* `Keeps size x`: a success of `x` does not raise the size.
* `Shrinks size p x`: a success of `x` whose value satisfies `p` lowers the size.
* `collect`: repeats an action that yields something for as long as it does, and gathers what it
  yields. It ends because every round shrinks the state.
-/

namespace ExprLang

variable {ε σ α β : Type}

/-! ## Successes of composed actions -/

theorem bind_eq_ok_iff {x : EStateM ε σ α} {f : α → EStateM ε σ β} {s u : σ} {b : β} :
    (x >>= f) s = .ok b u ↔ ∃ a t, x s = .ok a t ∧ f a t = .ok b u := by
  simp only [bind, EStateM.bind]
  cases x s with
  | ok a t =>
    exact ⟨fun h => ⟨a, t, rfl, h⟩, fun ⟨_, _, hx, h⟩ => by cases hx; exact h⟩
  | error e t => simp

theorem pure_eq_ok_iff {a b : α} {s t : σ} :
    (pure a : EStateM ε σ α) s = .ok b t ↔ a = b ∧ s = t := by
  simp [pure, EStateM.pure]

theorem map_eq_ok_iff {f : α → β} {x : EStateM ε σ α} {s t : σ} {b : β} :
    (f <$> x) s = .ok b t ↔ ∃ a, x s = .ok a t ∧ f a = b := by
  simp only [Functor.map, EStateM.map]
  cases x s
  · simp only [EStateM.Result.ok.injEq]
    exact ⟨fun ⟨h, ht⟩ => ⟨_, ⟨rfl, ht⟩, h⟩, fun ⟨_, ⟨ha, ht⟩, h⟩ => ⟨ha ▸ h, ht⟩⟩
  · simp

theorem get_eq_ok_iff {r s t : σ} : (get : EStateM ε σ σ) s = .ok r t ↔ s = r ∧ s = t := by
  change (EStateM.Result.ok s s : EStateM.Result ε σ σ) = .ok r t ↔ _
  simp

theorem modify_eq_ok_iff {f : σ → σ} {s t : σ} {u : Unit} :
    (modify f : EStateM ε σ Unit) s = .ok u t ↔ f s = t := by
  change (EStateM.Result.ok () (f s) : EStateM.Result ε σ Unit) = .ok u t ↔ _
  simp

theorem throw_ne_ok {e : ε} {s t : σ} {a : α} : (throw e : EStateM ε σ α) s ≠ .ok a t :=
  fun h => nomatch h

/-! ## Actions that keep or shrink a size -/

/-- A success of the action does not raise the size of the state. -/
def Keeps (size : σ → Nat) (x : EStateM ε σ α) : Prop :=
  ∀ s a t, x s = .ok a t → size t ≤ size s

/-- A success of the action with a value that satisfies `p` lowers the size of the state. -/
def Shrinks (size : σ → Nat) (p : α → Prop) (x : EStateM ε σ α) : Prop :=
  ∀ s a t, x s = .ok a t → p a → size t < size s

variable {size : σ → Nat}

theorem Keeps.pure (a : α) : Keeps size (Pure.pure a : EStateM ε σ α) := by
  intro s b t h
  obtain ⟨-, rfl⟩ := pure_eq_ok_iff.mp h
  exact Nat.le_refl _

theorem Keeps.bind {x : EStateM ε σ α} {f : α → EStateM ε σ β} (hx : Keeps size x)
    (hf : ∀ a, Keeps size (f a)) : Keeps size (x >>= f) := by
  intro s b u h
  obtain ⟨a, t, hx', hf'⟩ := bind_eq_ok_iff.mp h
  exact Nat.le_trans (hf _ _ _ _ hf') (hx _ _ _ hx')

theorem Keeps.map {x : EStateM ε σ α} (f : α → β) (hx : Keeps size x) : Keeps size (f <$> x) := by
  intro s b t h
  obtain ⟨a, hx', -⟩ := map_eq_ok_iff.mp h
  exact hx _ _ _ hx'

theorem Keeps.throw (e : ε) : Keeps size (MonadExcept.throw e : EStateM ε σ α) :=
  fun _ _ _ h => absurd h throw_ne_ok

theorem Keeps.get : Keeps size (MonadState.get : EStateM ε σ σ) := by
  intro s b t h
  obtain ⟨-, rfl⟩ := get_eq_ok_iff.mp h
  exact Nat.le_refl _

theorem Keeps.modify {f : σ → σ} (hf : ∀ s, size (f s) = size s) :
    Keeps size (modify f : EStateM ε σ Unit) := by
  intro s b t h
  obtain rfl := modify_eq_ok_iff.mp h
  exact Nat.le_of_eq (hf s)

theorem Shrinks.of_never {p : α → Prop} {x : EStateM ε σ α}
    (h : ∀ s a t, x s = .ok a t → ¬ p a) : Shrinks size p x :=
  fun s a t hx hp => absurd hp (h s a t hx)

theorem Shrinks.pure {p : α → Prop} {a : α} (h : ¬ p a) :
    Shrinks size p (Pure.pure a : EStateM ε σ α) :=
  .of_never fun _ _ _ ha => (pure_eq_ok_iff.mp ha).1 ▸ h

theorem Shrinks.throw {p : α → Prop} (e : ε) :
    Shrinks size p (MonadExcept.throw e : EStateM ε σ α) :=
  fun _ _ _ h => absurd h throw_ne_ok

theorem Shrinks.mono {p q : α → Prop} {x : EStateM ε σ α} (hx : Shrinks size q x)
    (h : ∀ a, p a → q a) : Shrinks size p x :=
  fun s a t ha hp => hx s a t ha (h a hp)

theorem Shrinks.keeps {x : EStateM ε σ α} (hx : Shrinks size (fun _ => True) x) : Keeps size x :=
  fun s a t h => Nat.le_of_lt (hx s a t h trivial)

/-- One step that shrinks is enough, if no other raises the size. -/
theorem Shrinks.bind {p : β → Prop} {q : α → Prop} {x : EStateM ε σ α} {f : α → EStateM ε σ β}
    (hk : Keeps size x) (hx : Shrinks size q x) (hfk : ∀ a, Keeps size (f a))
    (hf : ∀ a, ¬ q a → Shrinks size p (f a)) : Shrinks size p (x >>= f) := by
  intro s b u h hp
  obtain ⟨a, t, hx', hf'⟩ := bind_eq_ok_iff.mp h
  by_cases hq : q a
  · exact Nat.lt_of_le_of_lt (hfk _ _ _ _ hf') (hx _ _ _ hx' hq)
  · exact Nat.lt_of_lt_of_le (hf _ hq _ _ _ hf' hp) (hk _ _ _ hx')

theorem Shrinks.bind_left {p : β → Prop} {x : EStateM ε σ α} {f : α → EStateM ε σ β}
    (hx : Shrinks size (fun _ => True) x) (hf : ∀ a, Keeps size (f a)) :
    Shrinks size p (x >>= f) :=
  .bind hx.keeps hx hf fun _ h => absurd trivial h

theorem Shrinks.bind_right {p : β → Prop} {x : EStateM ε σ α} {f : α → EStateM ε σ β}
    (hx : Keeps size x) (hf : ∀ a, Shrinks size p (f a)) : Shrinks size p (x >>= f) := by
  intro s b u h hp
  obtain ⟨a, t, hx', hf'⟩ := bind_eq_ok_iff.mp h
  exact Nat.lt_of_lt_of_le (hf _ _ _ _ hf' hp) (hx _ _ _ hx')

theorem Shrinks.map {p : β → Prop} {x : EStateM ε σ α} {f : α → β}
    (hx : Shrinks size (fun a => p (f a)) x) : Shrinks size p (f <$> x) := by
  intro s b t h hp
  obtain ⟨a, hx', rfl⟩ := map_eq_ok_iff.mp h
  exact hx _ _ _ hx' hp

/-! ## Repetition -/

/-- The rounds of `collect`, with what earlier rounds yielded, the latest first. -/
def collectFrom (size : σ → Nat) (step : EStateM ε σ (Option α))
    (shrinks : Shrinks size (·.isSome = true) step) (found : List α) (s : σ) :
    EStateM.Result ε σ (List α) :=
  match _h : step s with
  | .error e t => .error e t
  | .ok none t => .ok found.reverse t
  | .ok (some a) t => collectFrom size step shrinks (a :: found) t
termination_by size s
decreasing_by exact shrinks _ _ _ _h rfl

/-- Repeats an action for as long as it yields something, and gathers what it yields in order. -/
def collect (size : σ → Nat) (step : EStateM ε σ (Option α))
    (shrinks : Shrinks size (·.isSome = true) step) : EStateM ε σ (List α) :=
  collectFrom size step shrinks []

theorem collectFrom_keeps {step : EStateM ε σ (Option α)}
    (shrinks : Shrinks size (·.isSome = true) step) (hk : Keeps size step) (found : List α) :
    Keeps size (collectFrom size step shrinks found) := by
  intro s l u h
  fun_induction collectFrom size step shrinks found s with
  | case1 => cases h
  | case2 found s t hs =>
    cases h
    exact hk _ _ _ hs
  | case3 found s a t hs ih => exact Nat.le_trans (ih h) (hk _ _ _ hs)

theorem Keeps.collect {step : EStateM ε σ (Option α)}
    (shrinks : Shrinks size (·.isSome = true) step) (hk : Keeps size step) :
    Keeps size (collect size step shrinks) :=
  collectFrom_keeps shrinks hk []

end ExprLang
