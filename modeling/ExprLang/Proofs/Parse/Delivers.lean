import ExprLang.Proofs.Parse.Phrase
import ExprLang.Proofs.Parse.Runs

/-!
# Phrases are read

Whatever `Reads` says of tokens, the rules do in front of them.

* `Place`, `Delivers`: tokens with scopes, and an action that leads from one place to another.
* **`Reads.delivers`**: in front of a phrase the rule for it delivers the tree.
-/

namespace ExprLang.Grammar

/-- Where a parse stands: the tokens in front of it and its scopes. -/
structure Place where
  tokens : List Token
  scopes : Scopes

variable {g : Grammar} {last : Token} {α β : Type}

/-- From `p` the action succeeds with `a` and leads to `q`. -/
def Delivers (g : Grammar) (last : Token) (x : ParseM α) (p : Place) (a : α) (q : Place) : Prop :=
  ∀ s, Before g last p.tokens s → s.scopes = p.scopes →
    ∃ t, x s = .ok a t ∧ Before g last q.tokens t ∧ t.scopes = q.scopes

/-! ## Composed actions -/

theorem Delivers.pure {a : α} {p : Place} : Delivers g last (Pure.pure a) p a p :=
  fun s hs hscopes => ⟨s, rfl, hs, hscopes⟩

theorem Delivers.bind {x : ParseM α} {f : α → ParseM β} {p q r : Place} {a : α} {b : β}
    (hx : Delivers g last x p a q) (hf : Delivers g last (f a) q b r) :
    Delivers g last (x >>= f) p b r := by
  intro s hs hscopes
  obtain ⟨t, ht, hb, hts⟩ := hx s hs hscopes
  obtain ⟨u, hu, hb', hus⟩ := hf t hb hts
  exact ⟨u, bind_eq_ok_iff.mpr ⟨a, t, ht, hu⟩, hb', hus⟩

theorem Delivers.map {x : ParseM α} {f : α → β} {p q : Place} {a : α}
    (hx : Delivers g last x p a q) : Delivers g last (f <$> x) p (f a) q := by
  intro s hs hscopes
  obtain ⟨t, ht, hb⟩ := hx s hs hscopes
  exact ⟨t, map_eq_ok_iff.mpr ⟨a, ht, rfl⟩, hb⟩

theorem Delivers.of_runs {x : ParseM α} {p q : Place} {a : α}
    (h : ∀ s, Before g last p.tokens s → Runs (fun _ => False) x s fun b t =>
      a = b ∧ Before g last q.tokens t ∧ t.scopes = s.scopes) (hq : q.scopes = p.scopes) :
    Delivers g last x p a q := by
  intro s hs hscopes
  obtain ⟨_, t, ht, rfl, hb, hts⟩ := (h s hs).exists_ok
  exact ⟨t, ht, hb, by rw [hts, hscopes, hq]⟩

/-- What depends on the state depends on its scopes only. -/
theorem delivers_get {f : ParseState → ParseM β} {p q : Place} {b : β}
    (h : ∀ s, s.scopes = p.scopes → Delivers g last (f s) p b q) :
    Delivers g last (MonadState.get >>= f) p b q := by
  intro s hs hscopes
  obtain ⟨t, ht, hb⟩ := h s hscopes s hs hscopes
  exact ⟨t, bind_eq_ok_iff.mpr ⟨s, s, rfl, ht⟩, hb⟩

theorem delivers_modify {f : ParseState → ParseState} {p : Place} {scopes : Scopes}
    (hu : ∀ s, (f s).tokens.upcoming g.vocabulary = s.tokens.upcoming g.vocabulary)
    (hf : ∀ s, s.scopes = p.scopes → (f s).scopes = scopes) :
    Delivers g last (modify f : ParseM Unit) p () ⟨p.tokens, scopes⟩ :=
  fun s hs hscopes => ⟨f s, rfl, (hu s).trans hs, hf s hscopes⟩

theorem delivers_note {e : Event} {p : Place} : Delivers g last (note e) p () p :=
  delivers_modify (fun _ => rfl) fun _ h => h

theorem delivers_deepen {p : Place} : Delivers g last deepen p () p :=
  delivers_modify (fun _ => rfl) fun _ h => h

theorem delivers_beginRound {left : Tree} {height : Nat} {p : Place} :
    Delivers g last (beginRound left height) p () p :=
  delivers_modify (fun _ => rfl) fun _ h => h

theorem delivers_leave {p : Place} : Delivers g last leave p () p :=
  delivers_modify (fun _ => rfl) fun _ h => h

/-! ## Tokens -/

theorem delivers_lookahead {p : Place} :
    Delivers g last g.lookahead p (firstOf p.tokens last) p :=
  .of_runs (fun _ hs => runs_lookahead hs) rfl

theorem delivers_currentKind {p : Place} :
    Delivers g last g.currentKind p (firstOf p.tokens last).kind p :=
  .map delivers_lookahead

theorem delivers_consume {token : Token} {tokens : List Token} {scopes : Scopes} :
    Delivers g last g.consume ⟨token :: tokens, scopes⟩ token ⟨tokens, scopes⟩ :=
  .of_runs (fun _ hs => runs_consume hs) rfl

theorem delivers_accept {kind : Kind} {token : Token} {tokens : List Token} {scopes : Scopes}
    (hk : token.kind = kind) :
    Delivers g last (g.accept kind) ⟨token :: tokens, scopes⟩ (some token) ⟨tokens, scopes⟩ :=
  .of_runs (fun _ hs => runs_accept hs hk) rfl

theorem delivers_accept_other {kind : Kind} {p : Place}
    (hk : (firstOf p.tokens last).kind ≠ kind) : Delivers g last (g.accept kind) p none p :=
  .of_runs (fun _ hs => runs_accept_other hs hk) rfl

theorem delivers_expectOr {kind : Kind} {cause : Cause} {token : Token} {tokens : List Token}
    {scopes : Scopes} (hk : token.kind = kind) :
    Delivers g last (g.expectOr kind cause) ⟨token :: tokens, scopes⟩ token ⟨tokens, scopes⟩ :=
  .of_runs (fun _ hs => runs_expectOr hs hk) rfl

theorem delivers_discard_expectOr {kind : Kind} {cause : Cause} {token : Token}
    {tokens : List Token} {scopes : Scopes} (hk : token.kind = kind) :
    Delivers g last (discard (g.expectOr kind cause)) ⟨token :: tokens, scopes⟩ ()
      ⟨tokens, scopes⟩ :=
  .map (delivers_expectOr hk)

/-! ## Expressions -/

/-- What a token means behind an operand, apart from the message if it may not stand there, does not
depend on what was before. -/
theorem afterOperand_eq_ok {inParen : Bool} {previous : String} {token : Token} {b : Bool}
    (h : g.afterOperand inParen previous token = .ok b) (other : String) :
    g.afterOperand inParen other token = .ok b := by
  unfold afterOperand at h ⊢
  split at h <;> try simp_all
  split at h
  · next hb => rw [if_pos hb, h]
  · cases h

theorem delivers_checkTarget {operator : Token} {target : Tree} {p : Place}
    (h : FitsTarget p.scopes operator target) :
    Delivers g last (checkTarget operator target) p () p := by
  unfold checkTarget
  by_cases ha : operator.kind = .assignment
  · rw [if_pos ha]
    obtain ⟨token, type, assignable, symbol, rfl, hl, hm⟩ := h ha
    refine delivers_get fun s hs => ?_
    rw [hs, hl]
    simp only [if_pos hm]
    exact .pure
  · rw [if_neg ha]
    exact .pure

/-- The rule for a phrase delivers its tree. -/
def PhraseDelivers (g : Grammar) (last : Token) (scopes : Scopes) (room : Nat)
    (tokens rest : List Token) (tree : Tree) : Phrase → Prop
  | .operand => Delivers g last (g.operandOf (g.groupOf (g.groupContentIn room)))
      ⟨tokens ++ rest, scopes⟩ (some tree) ⟨rest, scopes⟩
  | .signed => Delivers g last (g.signedIn room) ⟨tokens ++ rest, scopes⟩ (some tree) ⟨rest, scopes⟩
  | .binding previous inParen => Delivers g last (g.bindingIn room previous inParen)
      ⟨tokens ++ rest, scopes⟩ (some tree) ⟨rest, scopes⟩
  | .extension previous inParen left =>
    Delivers g last (g.climb (fun operator => g.bindingIn room (some operator) inParen) previous
      inParen left left.height) ⟨tokens ++ rest, scopes⟩ tree ⟨rest, scopes⟩

theorem delivers_trailedOf {scopes : Scopes} {room : Nat} {tokens rest : List Token} {tree : Tree}
    (ho : Delivers g last (g.operandOf (g.groupOf (g.groupContentIn room)))
      ⟨tokens ++ rest, scopes⟩ (some tree) ⟨rest, scopes⟩)
    (hb : g.vocabulary.isBefore (firstOf (tokens ++ rest) last).kind = false)
    {q : Place} {r : Option Tree}
    (ht : Delivers g last (do
        if g.vocabulary.isAfter (← g.currentKind) then
          let operator ← g.consume
          return some (.unary operator none tree)
        else return some tree) ⟨rest, scopes⟩ r q) :
    Delivers g last (g.signedIn room) ⟨tokens ++ rest, scopes⟩ r q := by
  cases room <;> rw [signedIn] <;> refine .bind delivers_currentKind ?_ <;>
    rw [if_neg (by rw [hb]; decide)] <;> exact .bind ho ht

/-- **In front of a phrase the rule for it delivers the tree.** -/
theorem Reads.delivers {scopes : Scopes} {phrase : Phrase} {room : Nat} {tokens : List Token}
    {next : Token} {tree : Tree} (h : Reads g scopes phrase room tokens next tree)
    (rest : List Token) (hn : firstOf rest last = next) :
    PhraseDelivers g last scopes room tokens rest tree phrase := by
  induction h generalizing rest with
  | literal rule known =>
    refine .bind delivers_currentKind ?_
    rw [List.singleton_append, firstOf_cons, rule]
    refine .map (.bind delivers_consume ?_)
    rw [known]
    exact .pure
  | symbol rule known =>
    refine .bind delivers_currentKind ?_
    rw [List.singleton_append, firstOf_cons, rule]
    refine .map (.bind delivers_consume (delivers_get fun s hs => ?_))
    rw [hs, known]
    exact .pure
  | group rule content close ih =>
    refine .bind delivers_currentKind ?_
    rw [List.cons_append, firstOf_cons, rule, List.append_assoc, List.singleton_append]
    refine .map (.bind delivers_consume ?_)
    refine .bind (.bind delivers_deepen (ih _ rfl)) ?_
    exact .bind (delivers_discard_expectOr close) (.bind delivers_leave .pure)
  | sign before _ ih =>
    rw [PhraseDelivers, signedIn]
    refine .bind delivers_currentKind ?_
    rw [List.cons_append, firstOf_cons, if_pos before]
    refine .bind delivers_consume (.bind delivers_deepen (.bind (ih rest hn) ?_))
    exact .bind delivers_leave .pure
  | plain unsigned _ final ih =>
    subst hn
    refine delivers_trailedOf (ih rest rfl) (by rwa [firstOf_append]) ?_
    refine .bind delivers_currentKind ?_
    rw [if_neg (by rw [final]; decide)]
    exact .pure
  | trailed unsigned _ after ih =>
    rw [PhraseDelivers]
    rw [List.append_assoc, List.singleton_append]
    refine delivers_trailedOf (ih _ rfl) (by rwa [firstOf_append]) ?_
    refine .bind delivers_currentKind ?_
    rw [firstOf_cons, if_pos after]
    exact .bind delivers_consume .pure
  | binding _ _ ihf iho =>
    rw [PhraseDelivers]
    unfold bindingIn
    rw [List.append_assoc]
    refine .bind delivers_deepen (.bind (ihf _ ?_) ?_)
    · rw [firstOf_append, hn]
    · exact .bind (iho rest hn) (.bind delivers_leave .pure)
  | ends stop =>
    subst hn
    rw [PhraseDelivers, climb]
    refine .bind delivers_beginRound (.bind delivers_lookahead (delivers_get fun s _ => ?_))
    obtain ⟨previous, hp⟩ := stop
    rw [List.nil_append, afterOperand_eq_ok hp]
    exact .pure
  | yields continues target looser =>
    subst hn
    rw [PhraseDelivers, climb]
    refine .bind delivers_beginRound (.bind delivers_lookahead (delivers_get fun s _ => ?_))
    obtain ⟨previous, hp⟩ := continues
    rw [List.nil_append, afterOperand_eq_ok hp]
    refine .bind (delivers_checkTarget target) ?_
    rw [if_pos looser]
    exact .pure
  | extend continues target tighter _ low _ ihr iho =>
    subst hn
    rw [PhraseDelivers, climb]
    refine .bind delivers_beginRound (.bind delivers_lookahead (delivers_get fun s _ => ?_))
    obtain ⟨previous, hp⟩ := continues
    rw [List.cons_append, firstOf_cons, afterOperand_eq_ok hp]
    refine .bind (delivers_checkTarget target) ?_
    rw [if_neg (by rw [tighter]; decide)]
    rw [List.append_assoc]
    refine .bind delivers_consume (.bind (ihr _ ?_) ?_)
    · rw [firstOf_append]
    · simp only [dif_neg (Nat.not_lt.mpr low)]
      rw [← height_pair]
      exact iho rest rfl

end ExprLang.Grammar
