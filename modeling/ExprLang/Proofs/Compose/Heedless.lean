import ExprLang.Proofs.Parallel.Programs

/-!
# What was taken before a program

The lexeme of the token taken last is named by some errors. At the start of a unit it has no part in
what a parse does: a rule takes a token before it comes to such an error.

* `Heedless`: an action for which it makes no difference.
* `Heedless.bind`, `Heedless.collect`, …: composed actions.
* **`heedless_program`**: whole programs.
-/

namespace ExprLang

/-- The state with another lexeme taken last. -/
def ParseState.following (s : ParseState) (lexeme : String) : ParseState :=
  { s with previous := lexeme }

namespace Grammar

variable {g : Grammar} {α β : Type} {p : α → Prop} {q : β → Prop}

/-- The lexeme taken last makes no difference to the action: either the action has taken a token, or
that lexeme is still the last. It has taken one if it yields what `p` describes. -/
def Heedless (p : α → Prop) (x : ParseM α) : Prop :=
  ∀ s lexeme, x (s.following lexeme) = x s ∨
    match x s with
    | .ok a t => ¬p a ∧ x (s.following lexeme) = .ok a (t.following lexeme)
    | .error e t => x (s.following lexeme) = .error e (t.following lexeme)

namespace Heedless

variable {x : ParseM α}

/-! ## Composed actions -/

theorem pure {a : α} (h : ¬p a) : Heedless p (Pure.pure a) := fun _ _ => .inr ⟨h, rfl⟩

theorem throw {e : Failure} : Heedless p (MonadExcept.throw e) := fun _ _ => .inr rfl

theorem refuse {cause : Cause} {line : UInt32} : Heedless p (ExprLang.refuse cause line) := throw

theorem bind {f : α → ParseM β} (hx : Heedless p x) (hf : ∀ a, ¬p a → Heedless q (f a)) :
    Heedless q (x >>= f) := by
  intro s lexeme
  simp only [Bind.bind, EStateM.bind]
  rcases hx s lexeme with hx | hx
  · exact .inl (by rw [hx])
  · rcases hr : x s with ⟨a, t⟩ | ⟨e, t⟩ <;> rw [hr] at hx
    · obtain ⟨ha, hx⟩ := hx
      rw [hx]
      exact hf a ha t lexeme
    · exact .inr (by rw [hx])

theorem bind_taken {f : α → ParseM β} (hx : ∀ p, Heedless p x) : Heedless q (x >>= f) :=
  .bind (hx fun _ => True) fun _ h => absurd trivial h

theorem map {f : α → β} (hx : Heedless p x) (hf : ∀ a, q (f a) → p a) : Heedless q (f <$> x) := by
  intro s lexeme
  simp only [Functor.map, EStateM.map]
  rcases hx s lexeme with hx | hx
  · exact .inl (by rw [hx])
  · rcases hr : x s with ⟨a, t⟩ | ⟨e, t⟩ <;> rw [hr] at hx
    · exact .inr ⟨mt (hf a) hx.1, by rw [hx.2]⟩
    · exact .inr (by rw [hx])

theorem get {f : ParseState → ParseM β} (hk : ∀ s lexeme, f (s.following lexeme) = f s)
    (hf : ∀ s, Heedless q (f s)) : Heedless q (MonadState.get >>= f) := by
  intro s lexeme
  have hget : ∀ s, (MonadState.get >>= f) s = f s s := fun _ => rfl
  rw [hget, hget, hk]
  exact hf s s lexeme

theorem modify {k : ParseState → ParseState}
    (hk : ∀ s lexeme, k (s.following lexeme) = (k s).following lexeme) :
    Heedless (fun _ => False) (modify k) :=
  fun s lexeme => .inr ⟨id, congrArg (EStateM.Result.ok ()) (hk s lexeme)⟩

theorem note {e : Event} : Heedless (fun _ => False) (note e) := .modify fun _ _ => rfl

theorem collect {size : ParseState → Nat} {step : ParseM (Option α)}
    {shrinks : Shrinks size (·.isSome = true) step} (hstep : Heedless (·.isSome = true) step) :
    Heedless (fun _ => False) (collect size step shrinks) := by
  intro s lexeme
  rw [ExprLang.collect, Parallel.collectFrom_eq, Parallel.collectFrom_eq]
  rcases hstep s lexeme with h | h
  · exact .inl (by rw [h])
  · rcases hr : step s with ⟨_ | a, t⟩ | ⟨e, t⟩ <;> rw [hr] at h
    · exact .inr ⟨id, by rw [h.2]⟩
    · exact absurd rfl h.1
    · exact .inr (by rw [h])

theorem notingFailure (hx : Heedless p x) : Heedless p (notingFailure x) := by
  intro s lexeme
  unfold Grammar.notingFailure
  rcases hx s lexeme with hx | hx
  · exact .inl (by rw [hx])
  · rcases hr : x s with ⟨a, t⟩ | ⟨e, t⟩ <;> rw [hr] at hx
    · exact .inr ⟨hx.1, by rw [hx.2]⟩
    · exact .inr (by rw [hx]; rfl)

end Heedless

/-! ## Tokens -/

theorem heedless_lookahead : Heedless (fun _ => False) g.lookahead := by
  intro s lexeme
  unfold lookahead ofTokens
  have htokens : (s.following lexeme).tokens = s.tokens := rfl
  rw [htokens]
  rcases TokenStream.lookahead g.vocabulary s.tokens with ⟨token, t⟩ | ⟨e, t⟩
  · exact .inr ⟨id, rfl⟩
  · exact .inr rfl

theorem heedless_currentKind : Heedless (fun _ => False) g.currentKind :=
  .map heedless_lookahead fun _ => id

theorem heedless_currentLine : Heedless (fun _ => False) g.currentLine :=
  .map heedless_lookahead fun _ => id

theorem heedless_consume (p : Token → Prop) : Heedless p g.consume := by
  intro s lexeme
  have htokens : (s.following lexeme).tokens = s.tokens := rfl
  simp only [consume, bind, EStateM.bind, ofTokens, htokens]
  rcases TokenStream.consume g.vocabulary s.tokens with ⟨token, t⟩ | ⟨e, t⟩
  · exact .inl rfl
  · exact .inr rfl

theorem heedless_accept {kind : Kind} : Heedless (·.isSome = true) (g.accept kind) := by
  refine .bind heedless_currentKind fun k _ => ?_
  split
  · exact .bind_taken heedless_consume
  · exact .pure (by simp)

theorem heedless_exceedDepth : Heedless p (g.exceedDepth : ParseM α) :=
  .bind (.modify fun _ _ => rfl) fun _ _ => .bind heedless_currentLine fun _ _ =>
    .bind .note fun _ _ => .refuse

/-! ## Rules -/

theorem heedless_trailedOf {content : ParseM (Option Tree)} :
    Heedless (·.isSome = true) (g.trailedOf (g.groupOf content)) := by
  have hoperand : Heedless (·.isSome = true) (g.operandOf (g.groupOf content)) := by
    refine .bind heedless_currentKind fun kind _ => ?_
    rcases g.operands.get? kind with _ | _ | _ | _
    · exact .pure (by simp)
    · exact .map (.bind_taken heedless_consume) fun _ _ => trivial
    · exact .map (.bind_taken heedless_consume) fun _ _ => trivial
    · exact .map (.bind_taken heedless_consume) fun _ _ => trivial
  refine .bind hoperand fun r hr => ?_
  cases r with
  | some => exact absurd rfl hr
  | none => exact .pure (by simp)

theorem heedless_nested (room : Nat) :
    Heedless (·.isSome = true) (g.signedIn room) ∧
      ∀ previous inParen, Heedless (·.isSome = true) (g.bindingIn room previous inParen) := by
  induction room with
  | zero =>
    refine ⟨.bind heedless_currentKind fun kind _ => ?_, fun _ _ => heedless_exceedDepth⟩
    split
    · exact .bind_taken fun _ => .map (heedless_consume fun _ => True) fun _ _ => trivial
    · exact heedless_trailedOf
  | succ room ih =>
    refine ⟨.bind heedless_currentKind fun kind _ => ?_, fun previous inParen => ?_⟩
    · split
      · exact .bind_taken heedless_consume
      · exact heedless_trailedOf
    · refine .bind (.modify fun _ _ => rfl) fun _ _ => .bind ih.1 fun r hr => ?_
      cases r with
      | some => exact absurd rfl hr
      | none =>
        cases previous with
        | some operator => exact .bind heedless_currentLine fun _ _ => .refuse
        | none =>
          refine .bind heedless_lookahead fun token _ => ?_
          split
          · exact .refuse
          · exact .bind (.modify fun _ _ => rfl) fun _ _ => .pure (by simp)

theorem heedless_expressionIn (room : Nat) :
    Heedless (·.isSome = true) (g.expressionIn room) := by
  refine .bind ((heedless_nested room).2 none false) fun r hr => ?_
  cases r with
  | some => exact absurd rfl hr
  | none => exact .bind heedless_accept fun r hr => .pure (by simpa using hr)

theorem heedless_statementIn (room : Nat) : Heedless (·.isSome = true) (g.statementIn room) := by
  refine .bind heedless_currentKind fun kind _ => ?_
  split
  · exact .map (.bind_taken heedless_consume) fun _ _ => trivial
  · exact heedless_expressionIn room

theorem heedless_blockIn (room : Nat) : Heedless (·.isSome = true) (g.blockIn room) := by
  have hblock : ∀ inside, Heedless (·.isSome = true) (g.blockOf inside) := by
    refine fun inside => .bind heedless_accept fun r hr => ?_
    cases r with
    | some => exact absurd rfl hr
    | none => exact .pure (by simp)
  cases room <;> exact hblock _

theorem heedless_unitIn (room : Nat) (p : Option Tree → Prop) : Heedless p (g.unitIn room) := by
  refine .bind (heedless_statementIn room) fun r hr => ?_
  cases r with
  | some => exact absurd rfl hr
  | none =>
    refine .bind (heedless_blockIn room) fun r hr => ?_
    cases r with
    | some => exact absurd rfl hr
    | none => exact .bind heedless_lookahead fun _ _ => .refuse

/-- **What was taken before a program has no part in it.** -/
theorem heedless_program : Heedless (fun _ => False) g.program := by
  refine .bind (.collect (.bind heedless_currentKind fun kind _ => ?_)) fun _ _ =>
    .get (fun _ _ => rfl) fun _ => .bind .note fun _ _ => .pure id
  split
  · exact .pure (by simp)
  · rw [Twin.reset_topLevelUnit]
    exact .bind (.modify fun _ _ => rfl) fun _ _ =>
      .map (.notingFailure (heedless_unitIn g.maxDepth fun _ => True)) fun _ _ => trivial

end Grammar

end ExprLang
