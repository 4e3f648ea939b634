import ExprLang.Grammar.Statement
import ExprLang.Proofs.Stream.Attempts

/-!
# Steps that leave no trace

Most steps of a parse count no level and begin no round of climbing, whatever comes of them. They
leave the depth and the trail as they were.

* `Flat`: such actions, with a rule for each way to compose them.
* `Flat.literal`, `Flat.checkTarget`, `Flat.typed`, …: the steps of expressions and statements.
-/

namespace ExprLang.Grammar

variable {α β : Type}

/-- The action leaves depth and trail as they were, also if it fails. -/
def Flat (x : ParseM α) : Prop :=
  ∀ s, (attempt x s).2.depth = s.depth ∧ (attempt x s).2.trail = s.trail

namespace Flat

variable {g : Grammar} {x y : ParseM α}

/-! ## Composed actions -/

theorem pure (a : α) : Flat (Pure.pure a) := fun _ => ⟨rfl, rfl⟩

theorem throw (e : Failure) : Flat (MonadExcept.throw e : ParseM α) := fun _ => ⟨rfl, rfl⟩

theorem refuse (cause : Cause) (line : UInt32) : Flat (ExprLang.refuse cause line : ParseM α) :=
  throw _

theorem get : Flat MonadState.get := fun _ => ⟨rfl, rfl⟩

theorem modify {f : ParseState → ParseState}
    (hf : ∀ s, (f s).depth = s.depth ∧ (f s).trail = s.trail) : Flat (modify f) := hf

theorem map (f : α → β) (hx : Flat x) : Flat (f <$> x) := by
  intro s
  rw [attempt_map]
  exact hx s

theorem bind {f : α → ParseM β} (hx : Flat x) (hf : ∀ a, Flat (f a)) : Flat (x >>= f) := by
  intro s
  have hs := hx s
  rw [attempt_bind]
  generalize attempt x s = r at hs ⊢
  rcases r with ⟨e | a, t⟩
  · exact hs
  · exact ⟨(hf a t).1.trans hs.1, (hf a t).2.trans hs.2⟩

theorem ite {c : Prop} [Decidable c] (hx : Flat x) (hy : Flat y) : Flat (if c then x else y) := by
  split
  · exact hx
  · exact hy

theorem of_ok {s t : ParseState} {a : α} (hx : Flat x) (h : x s = .ok a t) :
    t.depth = s.depth ∧ t.trail = s.trail := by
  have hs := hx s
  rwa [attempt_of_ok h] at hs

/-! ## Tokens -/

theorem ofTokens (action : TokenM α) : Flat (ofTokens action) := by
  intro s
  unfold attempt Grammar.ofTokens
  cases action s.tokens <;> exact ⟨rfl, rfl⟩

theorem note (e : Event) : Flat (note e) := modify fun _ => ⟨rfl, rfl⟩

theorem lookahead : Flat g.lookahead := ofTokens _

theorem currentKind : Flat g.currentKind := lookahead.map _

theorem currentLine : Flat g.currentLine := lookahead.map _

theorem consume : Flat g.consume :=
  bind (ofTokens _) fun _ => bind (modify fun _ => ⟨rfl, rfl⟩) fun _ => pure _

theorem accept (kind : Kind) : Flat (g.accept kind) :=
  bind currentKind fun _ => ite (bind consume fun _ => pure _) (pure _)

theorem expectOr (kind : Kind) (cause : Cause) : Flat (g.expectOr kind cause) :=
  bind lookahead fun _ => ite consume (bind (note _) fun _ => refuse _ _)

theorem discard_expectOr (kind : Kind) (cause : Cause) : Flat (discard (g.expectOr kind cause)) :=
  (expectOr kind cause).map _

/-! ## Steps of expressions -/

theorem literal : Flat g.literal := by
  refine bind consume fun token => ?_
  split
  · exact pure _
  · exact refuse _ _

theorem symbol : Flat g.symbol := by
  refine bind consume fun token => bind get fun s => ?_
  split
  · exact pure _
  · exact refuse _ _

theorem checkAssignable (target : Tree) (line : UInt32) : Flat (checkAssignable target line) := by
  unfold Grammar.checkAssignable
  split
  · refine bind get fun s => ?_
    split
    · exact ite (pure _) (refuse _ _)
    · exact refuse _ _
  · exact refuse _ _

theorem checkTarget (operator : Token) (target : Tree) : Flat (checkTarget operator target) :=
  ite (checkAssignable _ _) (pure _)

theorem exceedHeight (line : UInt32) : Flat (g.exceedHeight line : ParseM α) :=
  bind (note _) fun _ => refuse _ _

theorem noteFault (d : Diagnostic) : Flat (noteFault d) := by
  unfold Grammar.noteFault
  split
  · exact note _
  · exact pure _

theorem typed (tree : Tree) : Flat (g.typed tree) := by
  unfold Grammar.typed
  split
  · exact pure _
  · exact bind (noteFault _) fun _ => throw _

/-! ## Steps of statements -/

theorem typeClause : Flat g.typeClause := by
  refine bind (accept _) fun found => ?_
  split
  · exact pure _
  · refine bind (expectOr _ _) fun name => ?_
    split
    · exact pure _
    · exact refuse _ _

theorem declare (symbol : Symbol) (line : UInt32) : Flat (declare symbol line) := by
  refine bind get fun s => ?_
  split
  · exact modify fun _ => ⟨rfl, rfl⟩
  · exact throw _

theorem resolve (id : String) (type : DataType) : Flat (resolve id type) :=
  modify fun _ => ⟨rfl, rfl⟩

end Flat

end ExprLang.Grammar
