import ExprLang.Grammar.State
import ExprLang.Proofs.Stream.Upcoming

/-!
# Advances

An advance takes tokens and leaves scopes and nesting as they are. This module says what the steps
of a parse do when they succeed; the rules are read off these statements.

* `Advance`: from one state to another, with the tokens taken.
* `NextIs`, `Advance.nextIs`: which token may come next.
* `advance_of_lookahead`, `advance_of_consume`, `advance_of_accept`, `advance_of_expectOr`: the
  steps.
-/

namespace ExprLang.Grammar

open TokenStream

variable (g : Grammar)

/-- `tokens` are taken between `s` and `t`; scopes and nesting are those of `s`. -/
structure Advance (s : ParseState) (tokens : List Token) (t : ParseState) : Prop where
  takes : Takes g.vocabulary s.tokens tokens t.tokens
  scopes : t.scopes = s.scopes
  depth : t.depth = s.depth

variable {g}

theorem Advance.refl (s : ParseState) : Advance g s [] s := ⟨.refl _, rfl, rfl⟩

theorem Advance.trans {s t u : ParseState} {xs ys : List Token} (h : Advance g s xs t)
    (h' : Advance g t ys u) : Advance g s (xs ++ ys) u :=
  ⟨h.takes.trans h'.takes, h'.scopes.trans h.scopes, h'.depth.trans h.depth⟩

theorem Advance.of_deepened {s t : ParseState} {tokens : List Token}
    (h : Advance g (s.atDepth (s.depth + 1)) tokens t) :
    Advance g s tokens (t.atDepth (t.depth - 1)) := by
  refine ⟨h.takes, h.scopes, ?_⟩
  change t.depth - 1 = s.depth
  rw [h.depth]
  exact Nat.add_sub_cancel _ _

/-- What was ahead stays there or is taken first. -/
theorem ahead_of_takes {v : Vocabulary} {s t : TokenStream} {tokens : List Token}
    (h : Takes v s tokens t) {first : Token} (ha : s.ahead = some first) :
    (tokens = [] ∧ t.ahead = some first) ∨ ∃ rest, tokens = first :: rest := by
  induction h with
  | refl => exact .inl ⟨rfl, ha⟩
  | look step _ ih =>
    simp only [TokenStream.lookahead, ha] at step
    cases step
    exact ih ha
  | take step _ _ =>
    rw [TokenStream.consume_of_ahead ha] at step
    cases step
    exact .inr ⟨_, rfl⟩
  | note e _ ih => exact ih ha

/-- The first of some tokens, or the next one if there are none. -/
def firstOf (tokens : List Token) (next : Token) : Token := tokens.headD next

theorem firstOf_cons (token : Token) (tokens : List Token) (next : Token) :
    firstOf (token :: tokens) next = token := rfl

theorem firstOf_append (xs ys : List Token) (next : Token) :
    firstOf (xs ++ ys) next = firstOf xs (firstOf ys next) := by
  cases xs <;> rfl

/-- `next` may be the next token: what is ahead does not contradict it. -/
def NextIs (s : ParseState) (next : Token) : Prop :=
  ∀ token, s.tokens.ahead = some token → token = next

theorem NextIs.of_ahead {s : ParseState} {token : Token} (h : s.tokens.ahead = some token) :
    NextIs s token := fun _ hf => Option.some.inj (hf.symm.trans h)

/-- What may come next before an advance is its first token, or what may come next behind it. -/
theorem Advance.nextIs {s t : ParseState} {tokens : List Token} {next : Token}
    (h : Advance g s tokens t) (ht : NextIs t next) : NextIs s (firstOf tokens next) := by
  intro token ha
  rcases ahead_of_takes h.takes ha with ⟨rfl, ha'⟩ | ⟨rest, rfl⟩
  · exact ht token ha'
  · rfl

theorem Advance.nextIs_cons {s t : ParseState} {token : Token} {tokens : List Token}
    (h : Advance g s (token :: tokens) t) : NextIs s token := by
  intro first ha
  rcases ahead_of_takes h.takes ha with ⟨h', -⟩ | ⟨rest, h'⟩
  · cases h'
  · exact (List.cons.inj h').1.symm

theorem Advance.first {s t : ParseState} {tokens : List Token} {first next : Token}
    (h : Advance g s tokens t) (hs : s.tokens.ahead = some first) (ht : NextIs t next) :
    firstOf tokens next = first := (h.nextIs ht first hs).symm

theorem Advance.first_concat {s t : ParseState} {tokens : List Token} {first token : Token}
    (h : Advance g s (tokens ++ [token]) t) (hs : s.tokens.ahead = some first) :
    firstOf tokens token = first := by
  rcases ahead_of_takes h.takes hs with ⟨h', -⟩ | ⟨rest, h'⟩
  · simp at h'
  · cases tokens <;> exact (List.cons.inj h').1

/-! ## Steps -/

theorem advance_note (e : Event) (s : ParseState) : Advance g s [] (s.note e) :=
  ⟨.note e (.refl _), rfl, rfl⟩

theorem advance_of_note {e : Event} {s t : ParseState} {u : Unit} (h : note e s = .ok u t) :
    Advance g s [] t := by
  obtain rfl := modify_eq_ok_iff.mp h
  exact advance_note e s

theorem advance_of_beginRound {left : Tree} {height : Nat} {s t : ParseState} {u : Unit}
    (h : beginRound left height s = .ok u t) : Advance g s [] t := by
  obtain rfl := modify_eq_ok_iff.mp h
  exact ⟨.refl _, rfl, rfl⟩

theorem advance_of_lookahead {s t : ParseState} {token : Token}
    (h : g.lookahead s = .ok token t) : Advance g s [] t ∧ t.tokens.ahead = some token := by
  have ha := ahead_of_lookahead g h
  obtain ⟨u, hu, rfl⟩ := ofTokens_eq_ok h
  exact ⟨⟨.look hu (.refl _), rfl, rfl⟩, ha⟩

theorem lookahead_of_ahead {s : ParseState} {token : Token} (h : s.tokens.ahead = some token) :
    g.lookahead s = .ok token s := by
  have hl : TokenStream.lookahead g.vocabulary s.tokens = .ok token s.tokens := by
    simp only [TokenStream.lookahead, h]
  simp only [lookahead, ofTokens, hl]

theorem advance_of_currentKind {s t : ParseState} {kind : Kind}
    (h : g.currentKind s = .ok kind t) :
    ∃ token, token.kind = kind ∧ Advance g s [] t ∧ t.tokens.ahead = some token := by
  obtain ⟨token, hl, hk⟩ := map_eq_ok_iff.mp h
  exact ⟨token, hk, advance_of_lookahead hl⟩

theorem advance_of_consume {s t : ParseState} {token : Token} (h : g.consume s = .ok token t) :
    Advance g s [token] t := by
  obtain ⟨found, u, hc, h⟩ := bind_eq_ok_iff.mp h
  obtain ⟨w, hw, rfl⟩ := ofTokens_eq_ok hc
  obtain ⟨_, x, hm, h⟩ := bind_eq_ok_iff.mp h
  obtain rfl := modify_eq_ok_iff.mp hm
  obtain ⟨rfl, rfl⟩ := pure_eq_ok_iff.mp h
  exact ⟨.take hw (.refl _), rfl, rfl⟩

theorem advance_behind {s : ParseState} {token : Token} (h : s.tokens.ahead = some token) :
    Advance g s [token] (s.behind token) :=
  advance_of_consume (consume_of_ahead g h)

theorem eq_of_consume {s t : ParseState} {token found : Token}
    (ha : s.tokens.ahead = some token) (h : g.consume s = .ok found t) : found = token := by
  rw [consume_of_ahead g ha] at h
  cases h
  rfl

theorem ahead_of_consume {s t : ParseState} {token : Token} (h : g.consume s = .ok token t) :
    t.tokens.ahead = none := by
  obtain ⟨found, u, hc, h⟩ := bind_eq_ok_iff.mp h
  obtain ⟨w, hw, rfl⟩ := ofTokens_eq_ok hc
  obtain ⟨_, x, hm, h⟩ := bind_eq_ok_iff.mp h
  obtain rfl := modify_eq_ok_iff.mp hm
  obtain ⟨rfl, rfl⟩ := pure_eq_ok_iff.mp h
  unfold TokenStream.consume at hw
  split at hw
  · cases hw
    rfl
  · next ha => exact (TokenStream.scan_keeps_scanner hw).1.trans ha

/-- Either the token is taken, or it is another and stays. -/
theorem advance_of_accept {kind : Kind} {s t : ParseState} {r : Option Token}
    (h : g.accept kind s = .ok r t) :
    (∃ token, r = some token ∧ token.kind = kind ∧ Advance g s [token] t) ∨
      (r = none ∧ Advance g s [] t ∧ ∃ next, t.tokens.ahead = some next ∧ next.kind ≠ kind) := by
  obtain ⟨k, u, hl, h⟩ := bind_eq_ok_iff.mp h
  obtain ⟨token, rfl, hu, ha⟩ := advance_of_currentKind hl
  split at h
  · next hk =>
    obtain ⟨found, w, hc, h⟩ := bind_eq_ok_iff.mp h
    obtain ⟨rfl, rfl⟩ := pure_eq_ok_iff.mp h
    have hf := eq_of_consume ha hc
    exact .inl ⟨found, rfl, hf ▸ hk, hu.trans (advance_of_consume hc)⟩
  · next hk =>
    obtain ⟨rfl, rfl⟩ := pure_eq_ok_iff.mp h
    exact .inr ⟨rfl, hu, token, ha, hk⟩

theorem advance_of_expectOr {kind : Kind} {cause : Cause} {s t : ParseState} {token : Token}
    (h : g.expectOr kind cause s = .ok token t) : token.kind = kind ∧ Advance g s [token] t := by
  obtain ⟨found, u, hl, h⟩ := bind_eq_ok_iff.mp h
  obtain ⟨hu, ha⟩ := advance_of_lookahead hl
  split at h
  · next hk =>
    have hf := eq_of_consume ha h
    exact ⟨hf ▸ hk, hu.trans (advance_of_consume h)⟩
  · obtain ⟨_, _, _, h⟩ := bind_eq_ok_iff.mp h
    exact absurd h throw_ne_ok

theorem ahead_of_accept {kind : Kind} {s t : ParseState} {token : Token}
    (h : g.accept kind s = .ok (some token) t) : t.tokens.ahead = none := by
  obtain ⟨k, u, hl, h⟩ := bind_eq_ok_iff.mp h
  split at h
  · obtain ⟨found, w, hc, h⟩ := bind_eq_ok_iff.mp h
    obtain ⟨-, rfl⟩ := pure_eq_ok_iff.mp h
    exact ahead_of_consume hc
  · cases (pure_eq_ok_iff.mp h).1

theorem ahead_of_expectOr {kind : Kind} {cause : Cause} {s t : ParseState} {token : Token}
    (h : g.expectOr kind cause s = .ok token t) : t.tokens.ahead = none := by
  obtain ⟨found, u, hl, h⟩ := bind_eq_ok_iff.mp h
  split at h
  · exact ahead_of_consume h
  · obtain ⟨_, _, _, h⟩ := bind_eq_ok_iff.mp h
    exact absurd h throw_ne_ok

theorem advance_of_discard_expectOr {kind : Kind} {cause : Cause} {s t : ParseState} {u : Unit}
    (h : (discard (g.expectOr kind cause)) s = .ok u t) :
    ∃ token, token.kind = kind ∧ Advance g s [token] t := by
  obtain ⟨token, h, -⟩ := map_eq_ok_iff.mp h
  exact ⟨token, advance_of_expectOr h⟩

end ExprLang.Grammar
