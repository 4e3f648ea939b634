import ExprLang.Proofs.Lexing.LineCount
import ExprLang.Token.Stream

/-!
# Scanning any source

What the scanner does with a source of which nothing is known: it may deliver anything, and reads of
it may fail.

* `Failure.Lexical`: a failed read, or a lexical error.
* `OnLine`: an action that fails in no other way, and stays on its line otherwise.
* `lastLine`: the number of the last line that a scanner may come to.
* **`next?_onLine`**: a token is on the line that its scanner comes to, which is never an earlier
  one, as long as the counter does not start over.
-/

namespace ExprLang

/-- A failed read, or a refusal for a lexical cause. -/
def Failure.Lexical (e : Failure) : Prop := ∀ d, e = .refused d → d.cause.category = .lexical

theorem Failure.lexical_unreadable (text : String) : (unreadable text).Lexical := nofun

theorem Failure.lexical_refused {cause : Cause} {line : UInt32} (h : cause.category = .lexical) :
    (refused ⟨cause, line⟩).Lexical := by
  rintro _ ⟨⟩
  exact h

namespace Scanner

variable {α β : Type} {line : UInt32} {v : Vocabulary}

/-- From the line the action fails lexically, or stays there and yields what `Q` describes. It adds
no line feeds to those in front of it. -/
def OnLine (line : UInt32) (x : ScanM α) (Q : α → Prop) : Prop :=
  ∀ s, s.line = line →
    match x s with
    | .ok a t => t.line = line ∧ t.cursor.lineFeeds ≤ s.cursor.lineFeeds ∧ Q a
    | .error e _ => e.Lexical

/-! ## Composed actions -/

theorem OnLine.pure {a : α} {Q : α → Prop} (h : Q a) : OnLine line (Pure.pure a) Q :=
  fun _ hs => ⟨hs, Nat.le_refl _, h⟩

theorem OnLine.bind {x : ScanM α} {f : α → ScanM β} {P : α → Prop} {Q : β → Prop}
    (hx : OnLine line x P) (hf : ∀ a, P a → OnLine line (f a) Q) : OnLine line (x >>= f) Q := by
  intro s hs
  have hx := hx s hs
  simp only [Bind.bind, EStateM.bind]
  rcases hr : x s with ⟨a, t⟩ | ⟨e, t⟩ <;> rw [hr] at hx
  · obtain ⟨ht, hfeeds, ha⟩ := hx
    have hf := hf a ha t ht
    rcases hr' : f a t with ⟨b, u⟩ | ⟨e, u⟩ <;> simp only [hr'] at hf ⊢
    · exact ⟨hf.1, hf.2.1.trans hfeeds, hf.2.2⟩
    · exact hf
  · exact hx

theorem OnLine.map {x : ScanM α} {f : α → β} {P : α → Prop} {Q : β → Prop}
    (hx : OnLine line x P) (hf : ∀ a, P a → Q (f a)) : OnLine line (f <$> x) Q := by
  intro s hs
  have hx := hx s hs
  simp only [Functor.map, EStateM.map]
  rcases hr : x s with ⟨a, t⟩ | ⟨e, t⟩ <;> rw [hr] at hx
  · exact ⟨hx.1, hx.2.1, hf a hx.2.2⟩
  · exact hx

theorem OnLine.get {f : Scanner → ScanM β} {Q : β → Prop}
    (h : ∀ s, s.line = line → OnLine line (f s) Q) : OnLine line (MonadState.get >>= f) Q :=
  fun s hs => h s hs s hs

theorem OnLine.refuse {cause : Cause} {Q : α → Prop} (h : cause.category = .lexical) :
    OnLine line (ExprLang.refuse cause line) Q := fun _ _ => Failure.lexical_refused h

/-! ## Steps -/

theorem onLine_ofCursor {action : CursorM α}
    (h : ∀ c a d, action c = .ok a d → d.lineFeeds ≤ c.lineFeeds) :
    OnLine line (ofCursor action) fun _ => True := by
  intro s hs
  unfold ofCursor
  rcases hr : action s.cursor with ⟨a, c⟩ | ⟨e, c⟩
  · exact ⟨hs, h _ _ _ hr, trivial⟩
  · exact Failure.lexical_unreadable _

theorem onLine_peek : OnLine line peek fun _ => True :=
  onLine_ofCursor fun _ _ _ => Cursor.lineFeeds_peek_le

theorem onLine_read : OnLine line (ofCursor Cursor.read) fun _ => True :=
  onLine_ofCursor fun _ _ _ => Cursor.lineFeeds_read_le

theorem onLine_foldWhile (step : β → Char → Option β) (b : β) :
    OnLine line (foldWhile step b) fun _ => True := by
  intro s hs
  unfold foldWhile
  rcases hf : (s.cursor.foldWhile step b).fault with _ | text <;> simp only [hf]
  · exact ⟨hs, Cursor.lineFeeds_foldWhile_le step b s.cursor, trivial⟩
  · exact Failure.lexical_unreadable _

theorem onLine_accept (c : Char) : OnLine line (accept c) fun _ => True := by
  refine .bind onLine_peek fun r _ => ?_
  split
  · exact .bind (.map onLine_read fun _ _ => trivial) fun _ (_ : True) => .pure trivial
  · exact .pure trivial

/-! ## Lexemes -/

/-- What is found is a token on this line. -/
def PlacedOn (line : UInt32) (r : Option Token) : Prop :=
  ∀ token, r = some token → token.line = line

theorem onLine_some {x : ScanM Token} (h : OnLine line x (·.line = line)) :
    OnLine line (some <$> x) (PlacedOn line) :=
  .map h fun _ ht _ h => Option.some.inj h ▸ ht

theorem onLine_word? : OnLine line (word? v) (PlacedOn line) := by
  refine .bind onLine_peek fun r _ => ?_
  split
  · refine onLine_some (.get fun s hs => .bind (onLine_foldWhile _ _) fun word _ =>
      .bind onLine_peek fun next _ => ?_)
    split
    · split
      · exact .pure hs
      · exact hs ▸ .refuse rfl
    · exact .pure hs
  · exact .pure nofun

theorem onLine_sign : OnLine line sign fun _ => True := by
  refine .bind (onLine_accept _) fun b _ => ?_
  split
  · exact .pure trivial
  · refine .bind (onLine_accept _) fun b _ => ?_
    split <;> exact .pure trivial

theorem onLine_numeral? : OnLine line numeral? fun _ => True := by
  refine .bind (onLine_foldWhile _ _) fun whole _ => .bind (onLine_accept _) fun b _ => ?_
  split
  · exact .bind (onLine_foldWhile _ _) fun _ _ => .pure trivial
  · split <;> exact .pure trivial

theorem onLine_numberToken (mantissa : Numeral) :
    OnLine line (numberToken v line mantissa) (·.line = line) := by
  refine .bind (onLine_accept _) fun b _ => ?_
  split
  · refine .bind onLine_sign fun mark _ => .bind onLine_numeral? fun r _ => ?_
    split
    · exact .pure rfl
    · exact .refuse rfl
  · refine .bind onLine_peek fun r _ => ?_
    split
    · exact .pure rfl
    · exact .refuse rfl

theorem onLine_number? : OnLine line (number? v) (PlacedOn line) := by
  refine .get fun s hs => .bind onLine_numeral? fun r _ => ?_
  split
  · exact onLine_some (hs ▸ onLine_numberToken _)
  · exact .pure nofun

theorem onLine_operator? : OnLine line (operator? v) (PlacedOn line) := by
  refine .get fun s hs => .bind (onLine_foldWhile _ _) fun r _ => .pure fun token ht => ?_
  obtain ⟨kind, -, rfl⟩ := Option.map_eq_some_iff.mp ht
  exact hs

theorem onLine_orElse {first : ScanM (Option Token)} {second : ScanM Token}
    (hf : OnLine line first (PlacedOn line)) (hs : OnLine line second (·.line = line)) :
    OnLine line (orElse first second) (·.line = line) := by
  refine .bind hf fun r hr => ?_
  split
  · exact .pure (hr _ rfl)
  · exact hs

theorem onLine_lexeme (c : Char) : OnLine line (lexeme v c) (·.line = line) :=
  onLine_orElse onLine_word? <| onLine_orElse onLine_number? <| onLine_orElse onLine_operator? <|
    .get fun _ hs => hs ▸ .refuse rfl

/-! ## Lines in order -/

/-- The number of the last line that a scanner may come to. -/
def lastLine (s : Scanner) : Nat := s.line.toNat + s.cursor.lineFeeds

theorem lastLine_ofSource (source : Source) :
    (ofSource source).lastLine = 1 + source.lineFeeds := by
  change 1 + (([] : List Char).count '\n' + source.lineFeeds) = _
  rw [List.count_nil, Nat.zero_add]

theorem foldFront_blankStep_le {line : UInt32} {cs : List Char}
    (h : line.toNat + cs.count '\n' < 2 ^ 32) :
    line.toNat ≤ (Cursor.foldFront blankStep line cs).1.toNat ∧
      (Cursor.foldFront blankStep line cs).1.toNat +
        (Cursor.foldFront blankStep line cs).2.count '\n' ≤ line.toNat + cs.count '\n' := by
  induction cs generalizing line with
  | nil => exact ⟨Nat.le_refl _, Nat.le_refl _⟩
  | cons c cs ih =>
    rw [Cursor.foldFront, blankStep]
    by_cases hblank : Unicode.isBlank c = true
    · rw [if_pos hblank]
      by_cases hc : c = '\n'
      · subst hc
        rw [List.count_cons_self] at h ⊢
        have hnext : (line + 1).toNat = line.toNat + 1 := by
          rw [UInt32.toNat_add, UInt32.toNat_one, Nat.mod_eq_of_lt (by omega)]
        have hlow : (line + 1).toNat + cs.count '\n' < 2 ^ 32 := by omega
        obtain ⟨hle, hlast⟩ := ih hlow
        rw [hnext] at hle hlast
        exact ⟨by simp only [if_true]; omega, by simp only [if_true]; omega⟩
      · rw [List.count_cons_of_ne hc] at h ⊢
        simpa only [if_neg hc] using ih h
    · rw [if_neg hblank]
      exact ⟨Nat.le_refl _, Nat.le_refl _⟩

/-- Skipping blanks goes on in later lines, by no more than their line feeds. -/
theorem foldWhile_blankStep_le {line : UInt32} {c : Cursor}
    (h : line.toNat + c.lineFeeds < 2 ^ 32) :
    line.toNat ≤ (c.foldWhile blankStep line).value.toNat ∧
      (c.foldWhile blankStep line).value.toNat + (c.foldWhile blankStep line).cursor.lineFeeds ≤
        line.toNat + c.lineFeeds := by
  have hfront : line.toNat + c.pending.count '\n' < 2 ^ 32 := by
    unfold Cursor.lineFeeds at h
    omega
  have hfold := foldFront_blankStep_le hfront
  fun_induction Cursor.foldWhile blankStep line c with
  | case1 line c line' ch rest hf =>
    rw [hf] at hfold
    simp only [Cursor.lineFeeds] at hfold ⊢
    omega
  | case2 line c line' hf =>
    rw [hf] at hfold
    simp only [Cursor.lineFeeds] at hfold ⊢
    omega
  | case3 line c line' hf _ rest hr | case4 line c line' hf _ _ rest hr =>
    rw [hf] at hfold
    have := Source.lineFeeds_le_of_readLine hr
    simp only [Cursor.lineFeeds, List.count_nil] at hfold ⊢
    omega
  | case5 line c line' hf _ text rest hr ih =>
    rw [hf] at hfold
    have hread := Source.lineFeeds_readLine_le hr
    simp only [Cursor.lineFeeds, List.count_nil] at h hfold ih ⊢
    have hlow : line'.toNat + text.toList.count '\n' < 2 ^ 32 := by omega
    have := ih (by omega) hlow (foldFront_blankStep_le hlow)
    omega

theorem skipBlanks_onLine (s : Scanner) :
    match skipBlanks s with
    | .ok _ t => s.lastLine < 2 ^ 32 → s.line ≤ t.line ∧ t.lastLine ≤ s.lastLine
    | .error e _ => e.Lexical := by
  unfold skipBlanks
  rcases hf : (s.cursor.foldWhile blankStep s.line).fault with _ | text <;> simp only [hf]
  · exact fun h => foldWhile_blankStep_le h
  · exact Failure.lexical_unreadable _

/-- **The next lexeme is looked for on the line it starts on**, and nothing but a read or a lexical
error makes that fail. -/
theorem next?_onLine (v : Vocabulary) (s : Scanner) :
    match next? v s with
    | .ok none t => s.lastLine < 2 ^ 32 → s.line ≤ t.line ∧ t.lastLine ≤ s.lastLine
    | .ok (some token) t => t.line = token.line ∧
        (s.lastLine < 2 ^ 32 → s.line ≤ token.line ∧ t.lastLine ≤ s.lastLine)
    | .error e _ => e.Lexical := by
  have hskip := skipBlanks_onLine s
  obtain ⟨x, hx, hplaced⟩ : ∃ x, next? v = (skipBlanks >>= fun _ => x) ∧
      ∀ line, OnLine line x (PlacedOn line) := by
    refine ⟨_, rfl, fun line => .bind onLine_peek fun r _ => ?_⟩
    split
    · exact onLine_some (onLine_lexeme _)
    · exact .pure nofun
  rw [hx]
  simp only [bind, EStateM.bind]
  rcases hr : skipBlanks s with ⟨_, u⟩ | ⟨e, u⟩ <;> rw [hr] at hskip
  · have hu := hplaced u.line u rfl
    rcases hr : x u with ⟨r, t⟩ | ⟨e, t⟩ <;> simp only [hr] at hu ⊢
    · obtain ⟨hline, hfeeds, hr⟩ := hu
      have hlast : t.lastLine ≤ u.lastLine := by
        unfold lastLine
        rw [hline]
        omega
      have hmore : s.lastLine < 2 ^ 32 → s.line ≤ t.line ∧ t.lastLine ≤ s.lastLine :=
        fun h => ⟨hline ▸ (hskip h).1, hlast.trans (hskip h).2⟩
      cases r with
      | none => exact hmore
      | some token =>
        have htoken : t.line = token.line := hline.trans (hr token rfl).symm
        exact ⟨htoken, htoken ▸ hmore⟩
    · exact hu
  · exact hskip

end Scanner

end ExprLang
