import ExprLang.Proofs.Parse.Passage

/-!
# Finished units

The last token of a statement or a block is taken, not just seen, and it is not the start of
anything else: behind a unit no token has been seen.

* `ahead_of_expressionIn`, `ahead_of_statementIn`, `ahead_of_blockIn`: the rules.
* **`ahead_of_programStep`**: a round of a program.
-/

namespace ExprLang.Grammar

variable {g : Grammar} {s t : ParseState} {room : Nat}

theorem ahead_of_discard_expectOr {kind : Kind} {cause : Cause} {u : Unit}
    (h : (discard (g.expectOr kind cause)) s = .ok u t) : t.tokens.ahead = none := by
  obtain ⟨token, h, -⟩ := map_eq_ok_iff.mp h
  exact ahead_of_expectOr h

theorem ahead_of_expressionIn {tree : Tree} (h : g.expressionIn room s = .ok (some tree) t) :
    t.tokens.ahead = none := by
  obtain ⟨r, u, -, h⟩ := bind_eq_ok_iff.mp h
  cases r with
  | some =>
    obtain ⟨_, w, he, h⟩ := bind_eq_ok_iff.mp h
    obtain ⟨checked, hc, -⟩ := map_eq_ok_iff.mp h
    obtain ⟨rfl, -⟩ := check_of_typed hc
    exact ahead_of_discard_expectOr he
  | none =>
    obtain ⟨r, w, ha, h⟩ := bind_eq_ok_iff.mp h
    obtain ⟨hr, rfl⟩ := pure_eq_ok_iff.mp h
    cases r with
    | some => exact ahead_of_accept ha
    | none => cases hr

theorem ahead_of_initializerIn {operator : Token} {value : Tree}
    (h : g.initializerIn room operator s = .ok value t) : t.tokens.ahead = none := by
  obtain ⟨r, u, he, h⟩ := bind_eq_ok_iff.mp h
  cases r with
  | none => exact absurd h throw_ne_ok
  | some tree =>
    simp only at h
    split at h
    · exact absurd h throw_ne_ok
    · obtain ⟨-, rfl⟩ := pure_eq_ok_iff.mp h
      exact ahead_of_expressionIn he

theorem ahead_of_declarationIn {tree : Tree} (h : g.declarationIn room s = .ok tree t) :
    t.tokens.ahead = none := by
  obtain ⟨keyword, u, -, h⟩ := bind_eq_ok_iff.mp h
  obtain ⟨name, w, -, h⟩ := bind_eq_ok_iff.mp h
  obtain ⟨declared, x, -, h⟩ := bind_eq_ok_iff.mp h
  obtain ⟨_, y, -, h⟩ := bind_eq_ok_iff.mp h
  obtain ⟨_, z, -, h⟩ := bind_eq_ok_iff.mp h
  obtain ⟨r, p, -, h⟩ := bind_eq_ok_iff.mp h
  cases r with
  | none =>
    cases declared with
    | none => exact absurd h throw_ne_ok
    | some type =>
      obtain ⟨_, q, he, h⟩ := bind_eq_ok_iff.mp h
      obtain ⟨-, rfl⟩ := pure_eq_ok_iff.mp h
      exact ahead_of_discard_expectOr he
  | some operator =>
    obtain ⟨value, q, hv, h⟩ := bind_eq_ok_iff.mp h
    rcases hunify : unify declared value.type? operator.line with d | type <;> rw [hunify] at h
    · exact absurd h throw_ne_ok
    · obtain ⟨_, z, hr, h⟩ := bind_eq_ok_iff.mp h
      obtain rfl := modify_eq_ok_iff.mp hr
      obtain ⟨-, rfl⟩ := pure_eq_ok_iff.mp h
      exact (ahead_of_initializerIn hv :)

theorem ahead_of_statementIn {tree : Tree} (h : g.statementIn room s = .ok (some tree) t) :
    t.tokens.ahead = none := by
  obtain ⟨kind, u, -, h⟩ := bind_eq_ok_iff.mp h
  split at h
  · obtain ⟨_, h, -⟩ := map_eq_ok_iff.mp h
    exact ahead_of_declarationIn h
  · exact ahead_of_expressionIn h

theorem ahead_of_insideOf {statement block : Part} {r : List Tree × Nat}
    (h : g.insideOf statement block s = .ok r t) : t.tokens.ahead = none := by
  obtain ⟨_, u, -, h⟩ := bind_eq_ok_iff.mp h
  obtain ⟨_, w, he, h⟩ := bind_eq_ok_iff.mp h
  obtain ⟨_, x, hl, h⟩ := bind_eq_ok_iff.mp h
  obtain rfl := modify_eq_ok_iff.mp hl
  obtain ⟨_, y, hg, h⟩ := bind_eq_ok_iff.mp h
  obtain ⟨-, rfl⟩ := get_eq_ok_iff.mp hg
  obtain ⟨-, rfl⟩ := pure_eq_ok_iff.mp h
  exact (ahead_of_discard_expectOr he :)

theorem ahead_of_blockOf {inside : ParseM (List Tree × Nat)} {tree : Tree}
    (hinside : ∀ s r t, inside s = .ok r t → t.tokens.ahead = none)
    (h : g.blockOf inside s = .ok (some tree) t) : t.tokens.ahead = none := by
  obtain ⟨r, u, -, h⟩ := bind_eq_ok_iff.mp h
  cases r with
  | none => cases (pure_eq_ok_iff.mp h).1
  | some opening =>
    obtain ⟨_, w, -, h⟩ := bind_eq_ok_iff.mp h
    obtain ⟨_, x, hin, h⟩ := bind_eq_ok_iff.mp h
    obtain ⟨_, y, hn, h⟩ := bind_eq_ok_iff.mp h
    obtain rfl := modify_eq_ok_iff.mp hn
    obtain ⟨-, rfl⟩ := pure_eq_ok_iff.mp h
    exact (hinside _ _ _ hin :)

theorem ahead_of_blockIn {tree : Tree} (h : g.blockIn room s = .ok (some tree) t) :
    t.tokens.ahead = none := by
  unfold blockIn at h
  cases room with
  | zero => exact ahead_of_blockOf (fun _ _ _ hin => absurd hin exceedDepth_ne_ok) h
  | succ room =>
    refine ahead_of_blockOf (fun s r t hin => ?_) h
    obtain ⟨_, u, -, hin⟩ := bind_eq_ok_iff.mp hin
    obtain ⟨w, hbody, rfl⟩ := inNewScope_eq_ok hin
    exact (ahead_of_insideOf hbody :)

theorem ahead_of_unitIn {unit : Option Tree} (h : g.unitIn room s = .ok unit t) :
    t.tokens.ahead = none := by
  obtain ⟨r, u, hs, h⟩ := bind_eq_ok_iff.mp h
  cases r with
  | some statement =>
    obtain ⟨-, rfl⟩ := pure_eq_ok_iff.mp h
    exact ahead_of_statementIn hs
  | none =>
    obtain ⟨r, w, hb, h⟩ := bind_eq_ok_iff.mp h
    cases r with
    | some block =>
      obtain ⟨-, rfl⟩ := pure_eq_ok_iff.mp h
      exact ahead_of_blockIn hb
    | none =>
      obtain ⟨_, _, _, h⟩ := bind_eq_ok_iff.mp h
      exact absurd h throw_ne_ok

/-- **Behind a unit no token has been seen.** -/
theorem ahead_of_programStep {unit : Option Tree} (h : g.programStep s = .ok (some unit) t) :
    t.tokens.ahead = none := by
  obtain ⟨kind, u, -, h⟩ := bind_eq_ok_iff.mp h
  split at h
  · cases (pure_eq_ok_iff.mp h).1
  · obtain ⟨_, w, -, h⟩ := bind_eq_ok_iff.mp h
    obtain ⟨r, h, -⟩ := map_eq_ok_iff.mp h
    obtain ⟨room, x, -, h⟩ := bind_eq_ok_iff.mp (of_notingFailure h)
    exact ahead_of_unitIn h

end ExprLang.Grammar
