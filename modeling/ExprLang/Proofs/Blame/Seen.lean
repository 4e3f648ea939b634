import ExprLang.Proofs.Parse.Advance
import ExprLang.Proofs.Parse.Failing

/-!
# What a failure is blamed on

A parse that fails has been stopped by its scanner, or blames a token that it has taken or looked
at.

* `Reached`, `Seen`: the states a run comes through, and the tokens it pulls on its way.
* `Blames`: a failure of the scanner, or one that blames a token that has been seen.
* `blames_lookahead`, `blames_consume`, `blames_expectOr`, …: the steps.
-/

namespace ExprLang

/-- A cause that rules of the grammar blame a token for, whatever is in scope. The others are those
of the scanner and those for which a symbol has to be missing or without a type. -/
def Cause.isPlain : Cause → Bool
  | invalidCharacter .. | invalidNumber _ | invalidSyntax _ | invalidVariable _ | undeterminedType _
  | missingRight => false
  | _ => true

theorem Cause.not_lexical_of_isPlain {cause : Cause} (h : cause.isPlain = true) :
    cause.category ≠ .lexical := by
  intro hc
  cases cause with
  | invalidCharacter | invalidNumber | invalidSyntax => cases h
  | _ => cases hc

namespace Grammar

open TokenStream

variable (g : Grammar)

/-- Looks and takes lead from `start` to `s`. -/
def Reached (start s : ParseState) : Prop :=
  ∃ taken, Takes g.vocabulary start.tokens taken s.tokens

/-- Between `start` and `s` the token has been taken, or it is seen behind those that have. -/
def Seen (start s : ParseState) (token : Token) : Prop :=
  ∃ taken, Takes g.vocabulary start.tokens taken s.tokens ∧ token ∈ taken ++ s.tokens.ahead.toList

/-- How a parse that has begun in `start` may fail in `s`. `Open` describes the names that have no
type. -/
inductive Blames (start : ParseState) (Open : Token → Prop) : Failure → ParseState → Prop
  /-- The scanner fails behind what has been taken. -/
  | scan {taken : List Token} {stream stuck : TokenStream} {e : Failure} {s : ParseState}
      (takes : Takes g.vocabulary start.tokens taken stream)
      (fails : TokenStream.consume g.vocabulary stream = .error e stuck) : Blames start Open e s
  /-- A token is blamed. -/
  | token {token : Token} {cause : Cause} {s : ParseState} (seen : Seen g start s token)
      (plain : cause.isPlain = true) : Blames start Open (.refused ⟨cause, token.line⟩) s
  /-- A name without a type is blamed. -/
  | untyped {name : Token} {s : ParseState} (seen : Seen g start s name) (waits : Open name) :
      Blames start Open (.refused ⟨.undeterminedType name.value, name.line⟩) s

variable {g} {α : Type} {start s t : ParseState} {Open : Token → Prop} {token : Token}

/-! ## Tokens that have been seen -/

theorem Reached.refl (s : ParseState) : Reached g s s := ⟨[], .refl _⟩

theorem Reached.trans (h : Reached g start s) (h' : Reached g s t) : Reached g start t := by
  obtain ⟨xs, hs⟩ := h
  obtain ⟨ys, ht⟩ := h'
  exact ⟨xs ++ ys, hs.trans ht⟩

theorem Advance.reached {tokens : List Token} (h : Advance g s tokens t) : Reached g s t :=
  ⟨tokens, h.takes⟩

theorem Reached.advance {tokens : List Token} (h : Reached g start s)
    (ht : Advance g s tokens t) : Reached g start t := h.trans ht.reached

theorem Reached.seen (h : Reached g start s) (ha : s.tokens.ahead = some token) :
    Seen g start s token := by
  obtain ⟨taken, hs⟩ := h
  exact ⟨taken, hs, by rw [ha]; exact List.mem_concat_self⟩

theorem Reached.seen_of_mem {tokens : List Token} (h : Reached g start s)
    (ht : Advance g s tokens t) (hmem : token ∈ tokens) : Seen g start t token := by
  obtain ⟨taken, hs⟩ := h
  exact ⟨_, hs.trans ht.takes, List.mem_append_left _ (List.mem_append_right _ hmem)⟩

theorem Reached.seen_of_consume (h : Reached g start s) (hc : g.consume s = .ok token t) :
    Seen g start t token := h.seen_of_mem (advance_of_consume hc) (List.mem_singleton_self _)

/-- What has been seen stays so: what is looked at is still ahead later, or has been taken. -/
theorem Seen.trans (h : Seen g start s token) (ht : Reached g s t) : Seen g start t token := by
  obtain ⟨taken, hs, hmem⟩ := h
  obtain ⟨tokens, ht⟩ := ht
  refine ⟨taken ++ tokens, hs.trans ht, ?_⟩
  rw [List.append_assoc]
  refine List.mem_append.mpr ((List.mem_append.mp hmem).imp_right fun hahead => ?_)
  rcases ahead_of_takes ht (Option.mem_toList.mp hahead) with ⟨rfl, ha⟩ | ⟨rest, rfl⟩
  · rw [ha]
    exact List.mem_singleton_self _
  · exact List.mem_append_left _ List.mem_cons_self

theorem Seen.advance {tokens : List Token} (h : Seen g start s token)
    (ht : Advance g s tokens t) : Seen g start t token := h.trans ht.reached

/-! ## Failures -/

theorem Blames.mono {Open' : Token → Prop} {e : Failure} (h : Blames g start Open e s)
    (ho : ∀ name, e = .refused ⟨.undeterminedType name.value, name.line⟩ → Open name →
      Open' name) : Blames g start Open' e s := by
  cases h with
  | scan takes fails => exact .scan takes fails
  | token seen plain => exact .token seen plain
  | untyped seen waits => exact .untyped seen (ho _ rfl waits)

theorem Blames.trans {e : Failure} (h : Blames g start Open e s) (ht : Reached g s t) :
    Blames g start Open e t := by
  cases h with
  | scan takes fails => exact .scan takes fails
  | token seen plain => exact .token (seen.trans ht) plain
  | untyped seen waits => exact .untyped (seen.trans ht) waits

theorem blames_refuse {cause : Cause} (seen : Seen g start s token) (plain : cause.isPlain = true) :
    FailsBy (Blames g start Open) (refuse cause token.line : ParseM α) s :=
  failsBy_refuse (.token seen plain)

/-! ## Steps -/

theorem blames_lookahead (h : Reached g start s) :
    FailsBy (Blames g start Open) g.lookahead s := by
  refine failsBy_ofTokens fun e t hl => ?_
  obtain ⟨taken, hs⟩ := h
  unfold TokenStream.lookahead at hl
  split at hl
  · cases hl
  · next ha =>
    split at hl
    · cases hl
    · next hscan =>
      cases hl
      -- what cannot be looked at cannot be taken either
      have hfails : TokenStream.consume g.vocabulary s.tokens = .error e t := by
        simp only [TokenStream.consume, ha, hscan]
      exact .scan hs hfails

theorem blames_currentKind (h : Reached g start s) :
    FailsBy (Blames g start Open) g.currentKind s := .map (blames_lookahead h)

theorem blames_consume (h : Reached g start s) : FailsBy (Blames g start Open) g.consume s := by
  obtain ⟨taken, hs⟩ := h
  exact .bind (failsBy_ofTokens fun _ _ hc => .scan hs hc) fun _ _ _ =>
    .bind .modify fun _ _ _ => .pure

theorem blames_accept {kind : Kind} (h : Reached g start s) :
    FailsBy (Blames g start Open) (g.accept kind) s := by
  refine .bind (blames_currentKind h) fun k t hk => ?_
  obtain ⟨_, -, ht, -⟩ := advance_of_currentKind hk
  split
  · exact .bind (blames_consume (h.advance ht)) fun _ _ _ => .pure
  · exact .pure

theorem blames_expectOr {kind : Kind} {cause : Cause} (h : Reached g start s)
    (plain : cause.isPlain = true) : FailsBy (Blames g start Open) (g.expectOr kind cause) s := by
  refine .bind (blames_lookahead h) fun token t hl => ?_
  obtain ⟨ht, ha⟩ := advance_of_lookahead hl
  split
  · exact blames_consume (h.advance ht)
  · refine .bind .modify fun _ u hn => ?_
    have hseen := (h.advance ht).seen ha
    exact blames_refuse (hseen.advance (advance_of_note hn)) plain

theorem blames_exceedDepth (h : Reached g start s) :
    FailsBy (Blames g start Open) (g.exceedDepth : ParseM α) s := by
  refine .bind .modify fun _ s' hd => .bind ?_ fun line t hl => .bind .modify fun _ u hn => ?_
  · obtain rfl := modify_eq_ok_iff.mp hd
    exact .map (blames_lookahead h)
  · obtain rfl := modify_eq_ok_iff.mp hd
    obtain ⟨token, hlook, rfl⟩ := map_eq_ok_iff.mp hl
    obtain ⟨ht, ha⟩ := advance_of_lookahead hlook
    have hseen : Seen g start t token := (h.trans ⟨[], ht.takes⟩).seen ha
    exact blames_refuse (hseen.advance (advance_of_note hn)) rfl

theorem blames_exceedHeight (seen : Seen g start s token) :
    FailsBy (Blames g start Open) (g.exceedHeight token.line : ParseM α) s :=
  .bind .modify fun _ _ hn => blames_refuse (seen.advance (advance_of_note hn)) rfl

end Grammar

end ExprLang
