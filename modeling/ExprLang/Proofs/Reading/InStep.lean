import ExprLang.Proofs.Reading.Tape
import ExprLang.Proofs.Tree.Shift
import ExprLang.Token.Scanner

/-!
# Scanners in step

Two scanners read the same tape, one of them some lines later, or with more behind it. They do the
same, and they stay in step when they fail, unless one of them comes to the end of its tape where
there is more for the other.

* `InStep`: the scanners.
* `Follows`: an action of one scanner and one of the other that do the same.
* `Follows.bind`, …; `follows_word?`, `follows_number?`, `follows_operator?`: the rules.
* **`next?_follows`**: the next lexeme.
-/

namespace ExprLang

variable {α β γ δ : Type} {n : UInt32} {more : Tape} {v : Vocabulary}

/-- The same outcome `n` lines later, with `φ` applied to a value. -/
def carry (n : UInt32) (φ : α → β) : Except Failure α → Except Failure β
  | .ok a => .ok (φ a)
  | .error e => .error (e.shift n)

namespace Tape

/-- A fold leaves an end of the tape. -/
theorem fold_suffix (step : β → Char → Option β) (b : β) (t : Tape) :
    (fold step b t).2.2 <:+ t := by
  induction t generalizing b with
  | nil => exact List.suffix_refl _
  | cons r t ih =>
    cases r with
    | char c =>
      rw [fold]
      split
      · exact (ih _).trans (List.suffix_cons _ _)
      · exact List.suffix_refl _
    | lost text => exact List.suffix_cons _ _

/-- A fold that does not come to the end does the same with more behind it. -/
theorem fold_append {step : β → Char → Option β} {step' : γ → Char → Option γ} {g : β → γ}
    (hg : ∀ b c, step' (g b) c = (step b c).map g) (b : β) (t : Tape)
    (h : (fold step b t).2.2 ≠ [] ∨ more = []) :
    fold step' (g b) (t ++ more) =
      (g (fold step b t).1, (fold step b t).2.1, (fold step b t).2.2 ++ more) := by
  induction t generalizing b with
  | nil =>
    obtain rfl := h.resolve_left fun hne => hne rfl
    rfl
  | cons r t ih =>
    cases r with
    | char c =>
      rw [List.cons_append, fold, fold, hg]
      rw [fold] at h
      rcases hstep : step b c with _ | b' <;> rw [hstep] at h
      · rfl
      · exact ih b' h
    | lost text => rfl

end Tape

namespace Scanner

/-- The second scanner has the tape of the first and more, and is `n` lines behind it. -/
structure InStep (n : UInt32) (more : Tape) (s s' : Scanner) : Prop where
  tape : s'.cursor.tape = s.cursor.tape ++ more
  line : s'.line = s.line + n

/-- `Follows n more x y φ`: in step with `x`, `y` comes to the same, with `φ` applied to a value,
and stays in step; unless `x` comes to the end of its tape, and there is more for `y`. -/
structure Follows (n : UInt32) (more : Tape) (x : ScanM α) (y : ScanM β) (φ : α → β) : Prop where
  shortens : ∀ s, (attempt x s).2.cursor.tape <:+ s.cursor.tape
  agrees : ∀ s s', InStep n more s s' → (attempt x s).2.cursor.tape ≠ [] ∨ more = [] →
    (attempt y s').1 = carry n φ (attempt x s).1 ∧
      InStep n more (attempt x s).2 (attempt y s').2

theorem InStep.fold {s s' : Scanner} (hs : InStep n more s s') {step : β → Char → Option β}
    {step' : γ → Char → Option γ} {g : β → γ} (hg : ∀ b c, step' (g b) c = (step b c).map g) (b : β)
    (h : (s.cursor.foldWhile step b).cursor.tape ≠ [] ∨ more = []) :
    (s'.cursor.foldWhile step' (g b)).value = g (s.cursor.foldWhile step b).value ∧
      (s'.cursor.foldWhile step' (g b)).fault = (s.cursor.foldWhile step b).fault ∧
      (s'.cursor.foldWhile step' (g b)).cursor.tape =
        (s.cursor.foldWhile step b).cursor.tape ++ more := by
  have hfold := Cursor.fold_tape step b s.cursor
  have hfold' := Cursor.fold_tape step' (g b) s'.cursor
  rw [hs.tape, Tape.fold_append hg b s.cursor.tape (by rwa [hfold]), hfold] at hfold'
  obtain ⟨hvalue, hrest⟩ := Prod.mk.inj hfold'
  obtain ⟨hfault, htape⟩ := Prod.mk.inj hrest
  exact ⟨hvalue.symm, hfault.symm, htape.symm⟩

/-! ## Composed actions -/

namespace Follows

variable {x : ScanM α} {y : ScanM β} {φ : α → β} {ψ : γ → δ}

theorem pure {a : α} {b : β} (h : φ a = b) : Follows n more (Pure.pure a) (Pure.pure b) φ :=
  ⟨fun _ => List.suffix_refl _, fun _ _ hs _ => ⟨congrArg Except.ok h.symm, hs⟩⟩

theorem refuse {cause : Cause} {line : UInt32} :
    Follows n more (ExprLang.refuse cause line) (ExprLang.refuse cause (line + n)) φ :=
  ⟨fun _ => List.suffix_refl _, fun _ _ hs _ => ⟨rfl, hs⟩⟩

theorem bind {f : α → ScanM γ} {k : β → ScanM δ} (hx : Follows n more x y φ)
    (hf : ∀ a, Follows n more (f a) (k (φ a)) ψ) : Follows n more (x >>= f) (y >>= k) ψ := by
  constructor
  · intro s
    have hshort := hx.shortens s
    rw [attempt_bind]
    rcases hr : attempt x s with ⟨e | a, t⟩ <;> rw [hr] at hshort
    · exact hshort
    · exact ((hf a).shortens t).trans hshort
  · intro s s' hs hmore
    have hagree := hx.agrees s s' hs
    rw [attempt_bind] at hmore ⊢
    rw [attempt_bind]
    rcases hr : attempt x s with ⟨e | a, t⟩ <;> rw [hr] at hagree hmore
    · obtain ⟨hout, ht⟩ := hagree hmore
      rcases hr' : attempt y s' with ⟨e' | b, t'⟩ <;> rw [hr'] at hout ht <;> cases hout
      exact ⟨rfl, ht⟩
    · -- where the second action leaves something, so has the first
      obtain ⟨hout, ht⟩ := hagree (hmore.imp_left ((hf a).shortens t).ne_nil)
      rcases hr' : attempt y s' with ⟨e' | b, t'⟩ <;> rw [hr'] at hout ht <;> cases hout
      exact (hf a).agrees t t' ht hmore

theorem map {f : α → γ} {k : β → δ} (hx : Follows n more x y φ) (hfk : ∀ a, ψ (f a) = k (φ a)) :
    Follows n more (f <$> x) (k <$> y) ψ := by
  constructor
  · intro s
    rw [attempt_map]
    exact hx.shortens s
  · intro s s' hs hmore
    rw [attempt_map] at hmore ⊢
    rw [attempt_map]
    obtain ⟨hout, ht⟩ := hx.agrees s s' hs hmore
    refine ⟨?_, ht⟩
    rw [hout]
    rcases (attempt x s).1 with e | a
    · rfl
    · exact congrArg Except.ok (hfk a).symm

theorem get {f : Scanner → ScanM α} {k : Scanner → ScanM β}
    (h : ∀ s s' : Scanner, s'.line = s.line + n → Follows n more (f s) (k s') φ) :
    Follows n more (MonadState.get >>= f) (MonadState.get >>= k) φ :=
  ⟨fun s => (h s ⟨s.cursor, s.line + n⟩ rfl).shortens s,
    fun s s' hs hmore => (h s s' hs.line).agrees s s' hs hmore⟩

end Follows

/-! ## Steps -/

theorem attempt_ofCursor (x : CursorM α) (s : Scanner) :
    attempt (ofCursor x) s =
      ((attempt x s.cursor).1.mapError fun e => .unreadable e.message,
        { s with cursor := (attempt x s.cursor).2 }) := by
  simp only [attempt, ofCursor]
  cases x s.cursor <;> rfl

/-- What a fold comes to, with a failure where a loss has stopped it. -/
def foldOutcome (value : β) : Option String → Except Failure β
  | none => .ok value
  | some text => .error (.unreadable text)

theorem attempt_foldWhile (step : β → Char → Option β) (b : β) (s : Scanner) :
    attempt (foldWhile step b) s =
      (foldOutcome (s.cursor.foldWhile step b).value (s.cursor.foldWhile step b).fault,
        { s with cursor := (s.cursor.foldWhile step b).cursor }) := by
  simp only [attempt, foldWhile]
  cases (s.cursor.foldWhile step b).fault <;> rfl

theorem attempt_skipBlanks (s : Scanner) :
    attempt skipBlanks s =
      (foldOutcome () (s.cursor.foldWhile blankStep s.line).fault,
        ⟨(s.cursor.foldWhile blankStep s.line).cursor,
          (s.cursor.foldWhile blankStep s.line).value⟩) := by
  simp only [attempt, skipBlanks]
  cases (s.cursor.foldWhile blankStep s.line).fault <;> rfl

/-- An action on the tape that sees its front only. -/
theorem follows_ofCursor {x : CursorM α} {y : TapeM α} (hxy : Cursor.OnTape x y)
    (hsuffix : ∀ t, (attempt y t).2 <:+ t)
    (happend : ∀ t, (attempt y t).2 ≠ [] ∨ more = [] →
      attempt y (t ++ more) = ((attempt y t).1, (attempt y t).2 ++ more)) :
    Follows n more (ofCursor x) (ofCursor x) id := by
  constructor
  · intro s
    have hs := hsuffix s.cursor.tape
    rw [hxy] at hs
    rw [attempt_ofCursor]
    exact hs
  · intro s s' hs hmore
    rw [attempt_ofCursor] at hmore ⊢
    rw [attempt_ofCursor]
    have hfront := happend s.cursor.tape
    rw [← hs.tape, hxy, hxy] at hfront
    obtain ⟨hout, htape⟩ := Prod.mk.inj (hfront hmore)
    refine ⟨?_, htape, hs.line⟩
    rw [hout]
    cases (attempt x s.cursor).1 <;> rfl

theorem follows_peek : Follows n more peek peek id := by
  refine follows_ofCursor Cursor.onTape_peek ?_ ?_
  · rintro (_ | ⟨_ | _, t⟩)
    · exact List.suffix_refl _
    · exact List.suffix_refl _
    · exact List.suffix_cons _ _
  · rintro (_ | ⟨_ | _, t⟩) h
    · obtain rfl := h.resolve_left fun hne => hne rfl
      rfl
    · rfl
    · rfl

theorem follows_read : Follows n more (ofCursor Cursor.read) (ofCursor Cursor.read) id := by
  refine follows_ofCursor Cursor.onTape_read ?_ ?_
  · rintro (_ | ⟨_ | _, t⟩)
    · exact List.suffix_refl _
    · exact List.suffix_cons _ _
    · exact List.suffix_cons _ _
  · rintro (_ | ⟨_ | _, t⟩) h
    · obtain rfl := h.resolve_left fun hne => hne rfl
      rfl
    · rfl
    · rfl

theorem foldWhile_suffix (step : β → Char → Option β) (b : β) (c : Cursor) :
    (c.foldWhile step b).cursor.tape <:+ c.tape := by
  have hsuffix := Tape.fold_suffix step b c.tape
  rwa [Cursor.fold_tape] at hsuffix

theorem carry_foldOutcome (φ : β → γ) (value : β) (fault : Option String) :
    carry n φ (foldOutcome value fault) = foldOutcome (φ value) fault := by
  cases fault <;> rfl

theorem follows_foldWhile (step : β → Char → Option β) (b : β) :
    Follows n more (foldWhile step b) (foldWhile step b) id := by
  constructor
  · intro s
    rw [attempt_foldWhile]
    exact foldWhile_suffix step b s.cursor
  · intro s s' hs hmore
    rw [attempt_foldWhile] at hmore ⊢
    rw [attempt_foldWhile]
    have hsame : ∀ b c, step (id b) c = (step b c).map id := fun _ _ => Option.map_id_apply.symm
    obtain ⟨hvalue, hfault, htape⟩ := hs.fold hsame b hmore
    refine ⟨?_, htape, hs.line⟩
    rw [carry_foldOutcome, ← hvalue, ← hfault]
    rfl

/-- Blanks are counted from whatever line they start on. -/
theorem blankStep_add (line : UInt32) (c : Char) :
    blankStep (line + n) c = (blankStep line c).map (· + n) := by
  unfold blankStep
  by_cases hblank : Unicode.isBlank c = true
  · rw [if_pos hblank, if_pos hblank]
    by_cases hfeed : c = '\n'
    · simp [hfeed, UInt32.add_assoc, UInt32.add_comm n 1]
    · simp [hfeed]
  · simp [hblank]

theorem follows_skipBlanks : Follows n more skipBlanks skipBlanks id := by
  constructor
  · intro s
    rw [attempt_skipBlanks]
    exact foldWhile_suffix blankStep s.line s.cursor
  · intro s s' hs hmore
    rw [attempt_skipBlanks] at hmore ⊢
    rw [attempt_skipBlanks]
    obtain ⟨hvalue, hfault, htape⟩ := hs.fold blankStep_add s.line hmore
    rw [← hs.line] at hvalue hfault htape
    refine ⟨?_, htape, hvalue⟩
    rw [carry_foldOutcome, ← hfault]

theorem follows_accept (c : Char) : Follows n more (accept c) (accept c) id := by
  refine .bind follows_peek fun r => ?_
  simp only [id]
  split
  · have hdiscard : Follows n more (discard (ofCursor Cursor.read))
        (discard (ofCursor Cursor.read)) id := .map follows_read fun _ => rfl
    exact .bind hdiscard fun _ => .pure rfl
  · exact .pure rfl

/-! ## Lexemes -/

theorem follows_wordToken : Follows n more (wordToken v) (wordToken v) (Token.shift n) := by
  refine .get fun s s' hline => .bind (follows_foldWhile _ _) fun word =>
    .bind follows_peek fun r => ?_
  simp only [id, hline]
  split
  · split
    · exact .pure rfl
    · exact .refuse
  · exact .pure rfl

theorem follows_word? : Follows n more (word? v) (word? v) (Option.map (Token.shift n)) := by
  refine .bind follows_peek fun r => ?_
  simp only [id]
  split
  · exact .map follows_wordToken fun _ => rfl
  · exact .pure rfl

theorem follows_sign : Follows n more sign sign id := by
  refine .bind (follows_accept _) fun b => ?_
  simp only [id]
  split
  · exact .pure rfl
  · refine .bind (follows_accept _) fun b => ?_
    simp only [id]
    split <;> exact .pure rfl

theorem follows_numeral? : Follows n more numeral? numeral? id := by
  refine .bind (follows_foldWhile _ _) fun whole => .bind (follows_accept _) fun b => ?_
  simp only [id]
  split
  · exact .bind (follows_foldWhile _ _) fun _ => .pure rfl
  · split <;> exact .pure rfl

theorem follows_numberToken (line : UInt32) (mantissa : Numeral) :
    Follows n more (numberToken v line mantissa) (numberToken v (line + n) mantissa)
      (Token.shift n) := by
  refine .bind (follows_accept _) fun b => ?_
  simp only [id]
  split
  · refine .bind follows_sign fun mark => .bind follows_numeral? fun r => ?_
    cases r with
    | none => exact .refuse
    | some exponent => exact .pure rfl
  · refine .bind follows_peek fun r => ?_
    simp only [id]
    split
    · exact .pure rfl
    · exact .refuse

theorem follows_number? : Follows n more (number? v) (number? v) (Option.map (Token.shift n)) := by
  refine .get fun s s' hline => .bind follows_numeral? fun r => ?_
  simp only [id, hline]
  split
  · exact .map (follows_numberToken s.line _) fun _ => rfl
  · exact .pure rfl

theorem follows_operator? :
    Follows n more (operator? v) (operator? v) (Option.map (Token.shift n)) := by
  refine .get fun s s' hline => .bind (follows_foldWhile _ _) fun r => .pure ?_
  simp only [hline]
  rcases r with ⟨text, _ | kind⟩ <;> rfl

theorem follows_orElse {first : ScanM (Option Token)} {second : ScanM Token}
    (hf : Follows n more first first (Option.map (Token.shift n)))
    (hs : Follows n more second second (Token.shift n)) :
    Follows n more (orElse first second) (orElse first second) (Token.shift n) := by
  refine .bind hf fun r => ?_
  cases r with
  | none => exact hs
  | some token => exact .pure rfl

theorem follows_lexeme (c : Char) : Follows n more (lexeme v c) (lexeme v c) (Token.shift n) :=
  follows_orElse follows_word? <| follows_orElse follows_number? <|
    follows_orElse follows_operator? <| .get fun _ _ hline => hline ▸ .refuse

/-- **The next lexeme**: scanners in step come to the same, fail for the same, and stay in step. -/
theorem next?_follows (v : Vocabulary) :
    Follows n more (next? v) (next? v) (Option.map (Token.shift n)) := by
  refine .bind follows_skipBlanks fun _ => .bind follows_peek fun r => ?_
  cases r with
  | none => exact .pure rfl
  | some c => exact .map (follows_lexeme c) fun _ => rfl

end Scanner

end ExprLang
