import ExprLang.Proofs.Parallel.Tokens

/-!
# Parses with different nesting limits

A parse with a lower nesting limit goes the same way as one with a higher limit, up to where it is
cut off.

* `CutOff`: the failure of a parse that passes its nesting limit.
* `limitTwin`: parses of one source with two limits, side by side.
* `selfTwin`: parses of two sources with one limit.
-/

namespace ExprLang

theorem Token.Alike.refl (token : Token) : token.Alike Eq token := ⟨rfl, rfl, rfl⟩

theorem Token.Alike.option_refl (r : Option Token) : Option.Rel (Token.Alike Eq) r r := by
  cases r with
  | none => exact .none
  | some token => exact .some (.refl token)

theorem Failure.Alike.refl (e : Failure) : e.Alike Eq e := by
  cases e with
  | refused d => exact .refused ⟨rfl, rfl⟩
  | unreadable text => exact .unreadable text

theorem Parallel.refl {σ α : Type} {tolerated : Failure → Prop} (x : EStateM Failure σ α)
    {P : α → α → Prop} (h : ∀ a, P a a) :
    Parallel Eq (Failure.Alike Eq) tolerated x x P := by
  rintro s _ rfl
  rcases x s with ⟨a, t⟩ | ⟨e, t⟩
  · exact .ok (h a) rfl
  · exact .failed (.refl e)

namespace Grammar

/-- The nesting limit was passed. -/
def CutOff (limit : Nat) (e : Failure) : Prop :=
  ∃ line, e = .refused ⟨.nestingTooDeep limit, line⟩

/-- The parses of one source with a lower and a higher limit. The first may be cut off. -/
def limitTwin (g : Grammar) {limit : Nat} (h : g.maxDepth ≤ limit) :
    Twin g { g with maxDepth := limit } where
  lines := Eq
  scanners := Eq
  tolerated := CutOff g.maxDepth
  vocabulary := rfl
  declarators := rfl
  operands := rfl
  limit := .inr ⟨h, fun line => ⟨line, rfl⟩⟩
  next := .refl _ Token.Alike.option_refl
  line _ _ hst := congrArg Scanner.line hst

/-- The parses of two sources with one grammar, where scanning goes together. None is cut off. -/
def selfTwin (g : Grammar) (lines : UInt32 → UInt32 → Prop) (scanners : Scanner → Scanner → Prop)
    (next : Parallel scanners (Failure.Alike lines) (fun _ => False) (Scanner.next? g.vocabulary)
      (Scanner.next? g.vocabulary) (Option.Rel (Token.Alike lines)))
    (line : ∀ s t, scanners s t → lines s.line t.line) : Twin g g where
  lines := lines
  scanners := scanners
  tolerated _ := False
  vocabulary := rfl
  declarators := rfl
  operands := rfl
  limit := .inl rfl
  next := next
  line := line

theorem limitTwin_cuts (g : Grammar) {limit : Nat} (h : g.maxDepth ≤ limit) :
    (g.limitTwin h).Cuts :=
  fun line => ⟨line, rfl⟩

theorem limitTwin_abreast_refl (g : Grammar) {limit : Nat} (h : g.maxDepth ≤ limit)
    (s : ParseState) : (g.limitTwin h).Abreast s s :=
  ⟨⟨rfl, Token.Alike.option_refl _⟩, rfl, rfl⟩

end Grammar

end ExprLang
