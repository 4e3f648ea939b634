import Mathlib.Data.List.Basic
import ExprLang.Proofs.Lexing.Placed
import ExprLang.Proofs.Tree.Shift

/-!
# Scanning a text that goes on

What the scanner finds in a text it finds as well where the text stands on later lines; and it finds
it in a longer text, too, if it does not come to the end of the shorter one.

* `Steady`: an action does the same in front of the characters and in front of those with more
  behind them.
* `Steady.bind`, …; `steady_word?`, `steady_number?`, `steady_operator?`: the rules.
* **`next?_steady`**: the next lexeme.
-/

namespace ExprLang

namespace Scanner

open Cursor

variable {α β γ δ : Type} {v : Vocabulary} {n : UInt32} {more : List Char}

/-- The second scanner is in front of the same characters and more, `n` lines behind the first. -/
structure Beyond (n : UInt32) (more cs : List Char) (s s' : Scanner) : Prop where
  holds : s'.cursor.Holds (cs ++ more)
  line : s'.line = s.line + n

/-- `Steady n more x y φ`: what `x` does in front of some characters, `y` does in front of those and
`more`, `n` lines later, with `φ` applied to the value; unless `x` comes to the end of its
characters, and there is more for `y`. -/
def Steady (n : UInt32) (more : List Char) (x : ScanM α) (y : ScanM β) (φ : α → β) : Prop :=
  ∀ cs s, s.cursor.Holds cs →
    match x s with
    | .ok a t => ∃ rest, rest <:+ cs ∧ t.cursor.Holds rest ∧ (rest ≠ [] ∨ more = [] →
        ∀ s', Beyond n more cs s s' → ∃ t', y s' = .ok (φ a) t' ∧ Beyond n more rest t t')
    | .error e _ => more = [] →
        ∀ s', Beyond n more cs s s' → ∃ t', y s' = .error (e.shift n) t'

/-! ## Composed actions -/

namespace Steady

variable {x : ScanM α} {y : ScanM β} {φ : α → β} {ψ : γ → δ}

theorem pure {a : α} {b : β} (h : φ a = b) : Steady n more (Pure.pure a) (Pure.pure b) φ :=
  fun cs _ hs => ⟨cs, List.suffix_refl cs, hs, fun _ s' hs' => ⟨s', h ▸ rfl, hs'⟩⟩

theorem refuse {cause : Cause} {line : UInt32} :
    Steady n more (ExprLang.refuse cause line) (ExprLang.refuse cause (line + n)) φ :=
  fun _ _ _ _ s' _ => ⟨s', rfl⟩

theorem bind {f : α → ScanM γ} {k : β → ScanM δ} (hx : Steady n more x y φ)
    (hf : ∀ a, Steady n more (f a) (k (φ a)) ψ) : Steady n more (x >>= f) (y >>= k) ψ := by
  intro cs s hs
  have hx := hx cs s hs
  simp only [Bind.bind, EStateM.bind]
  rcases hr : x s with ⟨a, t⟩ | ⟨e, t⟩ <;> rw [hr] at hx
  · obtain ⟨mid, hmid, ht, hxy⟩ := hx
    have hf := hf a mid t ht
    simp only
    rcases hr' : f a t with ⟨b, u⟩ | ⟨e, u⟩ <;> rw [hr'] at hf
    · obtain ⟨rest, hrest, hu, hfk⟩ := hf
      refine ⟨rest, hrest.trans hmid, hu, fun hmore s' hs' => ?_⟩
      -- where the second action leaves something, so has the first
      obtain ⟨t', ht', htt'⟩ := hxy (hmore.imp_left hrest.ne_nil) s' hs'
      obtain ⟨u', hu', huu'⟩ := hfk hmore t' htt'
      exact ⟨u', by rw [ht', ← hu'], huu'⟩
    · intro hmore s' hs'
      obtain ⟨t', ht', htt'⟩ := hxy (.inr hmore) s' hs'
      obtain ⟨u', hu'⟩ := hf hmore t' htt'
      exact ⟨u', by rw [ht', ← hu']⟩
  · intro hmore s' hs'
    obtain ⟨t', ht'⟩ := hx hmore s' hs'
    exact ⟨t', by rw [ht']⟩

theorem map {f : α → γ} {k : β → δ} (hx : Steady n more x y φ) (hfk : ∀ a, ψ (f a) = k (φ a)) :
    Steady n more (f <$> x) (k <$> y) ψ := by
  intro cs s hs
  have hx := hx cs s hs
  simp only [Functor.map, EStateM.map]
  rcases hr : x s with ⟨a, t⟩ | ⟨e, t⟩ <;> rw [hr] at hx
  · obtain ⟨rest, hrest, ht, hxy⟩ := hx
    refine ⟨rest, hrest, ht, fun hmore s' hs' => ?_⟩
    obtain ⟨t', ht', htt'⟩ := hxy hmore s' hs'
    exact ⟨t', by rw [ht', hfk], htt'⟩
  · intro hmore s' hs'
    obtain ⟨t', ht'⟩ := hx hmore s' hs'
    exact ⟨t', by rw [ht']⟩

theorem get {f : Scanner → ScanM α} {k : Scanner → ScanM β}
    (h : ∀ s s' : Scanner, s'.line = s.line + n → Steady n more (f s) (k s') φ) :
    Steady n more (MonadState.get >>= f) (MonadState.get >>= k) φ := by
  intro cs s hs
  change match f s s with | .ok a t => _ | .error e _ => _
  have h₀ := h s ⟨s.cursor, s.line + n⟩ rfl cs s hs
  rcases hr : f s s with ⟨a, t⟩ | ⟨e, t⟩ <;> rw [hr] at h₀
  · obtain ⟨rest, hrest, ht, -⟩ := h₀
    refine ⟨rest, hrest, ht, fun hmore s' hs' => ?_⟩
    have h := h s s' hs'.line cs s hs
    rw [hr] at h
    obtain ⟨rest', -, ht', hfk⟩ := h
    obtain rfl := ht.unique ht'
    exact hfk hmore s' hs'
  · intro hmore s' hs'
    have h := h s s' hs'.line cs s hs
    rw [hr] at h
    exact h hmore s' hs'

/-- An action that takes a prefix of the characters, on one line, and in front of more characters
takes the same unless it has come to the end. -/
theorem of_scans {x : ScanM α} (found : List Char → α) (left : List Char → List Char)
    (hx : ∀ cs, Scans x cs (found cs = ·) (left cs)) (hline : ∀ line, OnLine line x fun _ => True)
    (hleft : ∀ cs, left cs <:+ cs) (hmore : ∀ cs, left cs ≠ [] →
      found (cs ++ more) = found cs ∧ left (cs ++ more) = left cs ++ more) :
    Steady n more x x id := by
  intro cs s hs
  obtain ⟨_, t, ht, rfl, htl⟩ := hx cs s hs
  have hts := hline s.line s rfl
  rw [ht] at hts ⊢
  refine ⟨left cs, hleft cs, htl, fun h s' hs' => ?_⟩
  obtain ⟨_, t', ht', rfl, htl'⟩ := hx (cs ++ more) s' hs'.holds
  have hts' := hline s'.line s' rfl
  rw [ht'] at hts'
  have hsame : found (cs ++ more) = found cs ∧ left (cs ++ more) = left cs ++ more := by
    rcases h with h | rfl
    · exact hmore cs h
    · rw [List.append_nil, List.append_nil]
      exact ⟨rfl, rfl⟩
  rw [hsame.1] at ht'
  rw [hsame.2] at htl'
  exact ⟨t', ht', htl', by rw [hts'.1, hs'.line, hts.1]⟩

end Steady

/-! ## Steps -/

theorem steady_peek : Steady n more peek peek id :=
  .of_scans List.head? id (fun _ => scans_peek) (fun _ => onLine_peek) List.suffix_refl
    fun cs hne => ⟨List.head?_append_of_ne_nil cs hne, rfl⟩

theorem foldFront_suffix (step : β → Char → Option β) (b : β) (cs : List Char) :
    (foldFront step b cs).2 <:+ cs := by
  induction cs generalizing b with
  | nil => exact List.suffix_refl _
  | cons c cs ih =>
    rw [foldFront]
    split
    · exact (ih _).trans (List.suffix_cons _ _)
    · exact List.suffix_refl _

theorem steady_foldWhile (step : β → Char → Option β) (b : β) :
    Steady n more (foldWhile step b) (foldWhile step b) id := by
  refine .of_scans (foldFront step b · |>.1) (foldFront step b · |>.2) (scans_foldWhile step b)
    (fun _ => onLine_foldWhile step b) (foldFront_suffix step b) fun cs hne => ?_
  rw [foldFront_append, if_neg hne]
  exact ⟨rfl, rfl⟩

theorem steady_accept (c : Char) : Steady n more (accept c) (accept c) id := by
  refine .of_scans (·.head? == some c) (fun cs => if cs.head? = some c then cs.tail else cs) ?_
    (fun _ => onLine_accept c) ?_ ?_
  · intro cs
    by_cases hc : cs.head? = some c
    · obtain ⟨rest, rfl⟩ := List.head?_eq_some_iff.mp hc
      rw [if_pos hc, List.tail_cons]
      simpa using @scans_accept c rest
    · rw [if_neg hc, beq_eq_false_iff_ne.mpr hc]
      exact scans_accept_other hc
  · intro cs
    split
    · exact List.tail_suffix cs
    · exact List.suffix_refl cs
  · intro cs hne
    cases cs with
    | nil => exact absurd rfl hne
    | cons d rest =>
      refine ⟨rfl, ?_⟩
      by_cases hd : some d = some c
      · exact (if_pos hd).trans (congrArg (· ++ more) (if_pos hd).symm)
      · exact (if_neg hd).trans (congrArg (· ++ more) (if_neg hd).symm)

/-! ## Lexemes -/

/-- A token in a line of its own. -/
abbrev shifted (n : UInt32) : Option Token → Option Token := Option.map (Token.shift n)

theorem steady_wordToken : Steady n more (wordToken v) (wordToken v) (Token.shift n) := by
  refine .get fun s s' hline => .bind (steady_foldWhile _ _) fun word =>
    .bind steady_peek fun r => ?_
  simp only [id, hline]
  split
  · split
    · exact .pure rfl
    · exact .refuse
  · exact .pure rfl

theorem steady_word? : Steady n more (word? v) (word? v) (shifted n) := by
  refine .bind steady_peek fun r => ?_
  simp only [id]
  split
  · exact .map steady_wordToken fun _ => rfl
  · exact .pure rfl

theorem steady_sign : Steady n more sign sign id := by
  refine .bind (steady_accept _) fun b => ?_
  simp only [id]
  split
  · exact .pure rfl
  · refine .bind (steady_accept _) fun b => ?_
    simp only [id]
    split <;> exact .pure rfl

theorem steady_numeral? : Steady n more numeral? numeral? id := by
  refine .bind (steady_foldWhile _ _) fun whole => .bind (steady_accept _) fun b => ?_
  simp only [id]
  split
  · exact .bind (steady_foldWhile _ _) fun _ => .pure rfl
  · split <;> exact .pure rfl

theorem steady_numberToken (line : UInt32) (mantissa : Numeral) :
    Steady n more (numberToken v line mantissa) (numberToken v (line + n) mantissa)
      (Token.shift n) := by
  refine .bind (steady_accept _) fun b => ?_
  simp only [id]
  split
  · refine .bind steady_sign fun mark => .bind steady_numeral? fun r => ?_
    cases r with
    | none => exact .refuse
    | some exponent => exact .pure rfl
  · refine .bind steady_peek fun r => ?_
    simp only [id]
    split
    · exact .pure rfl
    · exact .refuse

theorem steady_number? : Steady n more (number? v) (number? v) (shifted n) := by
  refine .get fun s s' hline => .bind steady_numeral? fun r => ?_
  simp only [id, hline]
  split
  · exact .map (steady_numberToken s.line _) fun _ => rfl
  · exact .pure rfl

theorem steady_operator? : Steady n more (operator? v) (operator? v) (shifted n) := by
  refine .get fun s s' hline => .bind (steady_foldWhile _ _) fun r => .pure ?_
  simp only [hline]
  rcases r with ⟨text, _ | kind⟩ <;> rfl

theorem steady_orElse {first : ScanM (Option Token)} {second : ScanM Token}
    (hf : Steady n more first first (shifted n))
    (hs : Steady n more second second (Token.shift n)) :
    Steady n more (orElse first second) (orElse first second) (Token.shift n) := by
  refine .bind hf fun r => ?_
  cases r with
  | none => exact hs
  | some token => exact .pure rfl

theorem steady_lexeme (c : Char) : Steady n more (lexeme v c) (lexeme v c) (Token.shift n) :=
  steady_orElse steady_word? <| steady_orElse steady_number? <| steady_orElse steady_operator? <|
    .get fun _ _ hline => hline ▸ .refuse

/-- In front of more blanks and a longer text, skipping the blanks leads to the same characters. -/
theorem skipBlanks_beyond {s s' u : Scanner} {blanks front others : List Char}
    (hblank : ∀ c ∈ blanks ++ front, Unicode.isBlank c = true)
    (hstops : Stops Unicode.isBlank others)
    (hs' : s'.cursor.Holds (blanks ++ (front ++ others ++ more)))
    (hline : lineBehind s'.line blanks = s.line + n) (hul : u.line = lineBehind s.line front)
    (hne : others ≠ [] ∨ more = []) :
    ∃ u', skipBlanks s' = .ok () u' ∧ Beyond n more others u u' := by
  obtain ⟨front', others', u', heq, hfront', hstops', hskip', hu', hul'⟩ := skipBlanks_of_holds hs'
  have hstops'' : Stops Unicode.isBlank (others ++ more) := by
    rcases hne with hne | rfl
    · intro c hc
      rw [List.head?_append_of_ne_nil _ hne] at hc
      exact hstops c hc
    · rwa [List.append_nil]
  -- both texts split where their blanks end
  rw [List.append_assoc, ← List.append_assoc] at heq
  have hsplit := congrArg (List.takeWhile Unicode.isBlank) heq
  rw [takeWhile_blanks hblank hstops'', takeWhile_blanks hfront' hstops'] at hsplit
  subst hsplit
  obtain rfl := List.append_cancel_left heq
  refine ⟨u', hskip', hu', ?_⟩
  rw [hul', lineBehind_append, hline, lineBehind_add, hul]

/-- **The next lexeme** is found in a text that goes on, and behind more blanks. -/
theorem next?_steady {s s' : Scanner} {blanks cs : List Char} (hs : s.cursor.Holds cs)
    (hblank : ∀ c ∈ blanks, Unicode.isBlank c = true)
    (hs' : s'.cursor.Holds (blanks ++ (cs ++ more)))
    (hline : lineBehind s'.line blanks = s.line + n) :
    match next? v s with
    | .ok r t => ∃ rest, rest <:+ cs ∧ t.cursor.Holds rest ∧ (rest ≠ [] ∨ more = [] →
        ∃ t', next? v s' = .ok (shifted n r) t' ∧ Beyond n more rest t t')
    | .error e _ => more = [] → ∃ t', next? v s' = .error (e.shift n) t' := by
  obtain ⟨x, hx, hsteady⟩ : ∃ x, next? v = (skipBlanks >>= fun _ => x) ∧
      Steady n more x x (shifted n) := by
    refine ⟨_, rfl, .bind steady_peek fun r => ?_⟩
    cases r with
    | none => exact .pure rfl
    | some c => exact .map (steady_lexeme c) fun _ => rfl
  obtain ⟨front, others, u, rfl, hfront, hstops, hskip, hu, hul⟩ := skipBlanks_of_holds hs
  have hskip' := skipBlanks_beyond (List.forall_mem_append.mpr ⟨hblank, hfront⟩) hstops hs' hline
    hul
  have h := hsteady others u hu
  rw [hx]
  simp only [bind, EStateM.bind, hskip]
  rcases hr : x u with ⟨r, t⟩ | ⟨e, t⟩ <;> rw [hr] at h
  · obtain ⟨rest, hrest, ht, hxt⟩ := h
    refine ⟨rest, hrest.trans (List.suffix_append _ _), ht, fun hmore => ?_⟩
    obtain ⟨u', hu', hbeyond⟩ := hskip' (hmore.imp_left hrest.ne_nil)
    obtain ⟨t', ht', hbeyond'⟩ := hxt hmore u' hbeyond
    exact ⟨t', by rw [hu', ← ht'], hbeyond'⟩
  · intro hmore
    obtain ⟨u', hu', hbeyond⟩ := hskip' (.inr hmore)
    obtain ⟨t', ht'⟩ := h hmore u' hbeyond
    exact ⟨t', by rw [hu', ← ht']⟩

end Scanner

end ExprLang
