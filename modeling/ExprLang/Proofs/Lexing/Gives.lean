import Mathlib.Data.List.TakeWhile
import ExprLang.Proofs.Lexing.LineCount
import ExprLang.Proofs.Lexing.Scans

/-!
# Scanning any text

What the steps of a scanner do in front of characters of which nothing is known. Where `Scans`
predicts a success, these statements describe what a step finds, whatever it is.

* `Gives`: in front of given characters an action fails or succeeds as described. It stays on its
  line.
* `gives_peek`, `gives_accept`, `gives_takeWhile`, `gives_foldWhile`: the steps.
* `skipBlanks_of_holds`: blanks are skipped to the last, and their line feeds counted.
-/

namespace ExprLang

namespace Cursor

theorem stops_dropWhile (p : Char → Bool) (cs : List Char) : Stops p (cs.dropWhile p) := by
  intro c hc
  have := List.head?_dropWhile_not p cs
  rw [hc] at this
  simpa using this

/-- A fold that takes what has a property takes the longest run of such characters. -/
theorem foldFront_push_eq (p : Char → Bool) (text : String) (cs : List Char) :
    foldFront (fun text c => if p c then some (text.push c) else none) text cs =
      (text ++ String.ofList (cs.takeWhile p), cs.dropWhile p) := by
  have htakes : ∀ c ∈ cs.takeWhile p, p c = true := fun _ => List.mem_takeWhile_imp
  have h := foldFront_push htakes (stops_dropWhile p cs) text
  rwa [List.takeWhile_append_dropWhile] at h

end Cursor

namespace Scanner

open Cursor

variable {α β : Type} {line : UInt32} {cs : List Char} {E : Failure → Prop}

/-- In front of `cs` the action fails with what `E` describes, or succeeds with what `Q` describes
together with the characters left. A success stays on the line. -/
def Gives (E : Failure → Prop) (x : ScanM α) (line : UInt32) (cs : List Char)
    (Q : α → List Char → Prop) : Prop :=
  ∀ s, s.cursor.Holds cs → s.line = line →
    match x s with
    | .ok a t => ∃ rest, t.cursor.Holds rest ∧ t.line = line ∧ Q a rest
    | .error e _ => E e

/-! ## Composed actions -/

theorem Gives.pure {a : α} {Q : α → List Char → Prop} (h : Q a cs) :
    Gives E (Pure.pure a) line cs Q := fun _ hs hl => ⟨cs, hs, hl, h⟩

theorem Gives.bind {x : ScanM α} {f : α → ScanM β} {P : α → List Char → Prop}
    {Q : β → List Char → Prop} (hx : Gives E x line cs P)
    (hf : ∀ a rest, P a rest → Gives E (f a) line rest Q) : Gives E (x >>= f) line cs Q := by
  intro s hs hl
  have hx := hx s hs hl
  simp only [Bind.bind, EStateM.bind]
  rcases hr : x s with ⟨a, t⟩ | ⟨e, t⟩ <;> rw [hr] at hx
  · obtain ⟨rest, ht, htl, hp⟩ := hx
    exact hf a rest hp t ht htl
  · exact hx

theorem Gives.mono {x : ScanM α} {P Q : α → List Char → Prop} (hx : Gives E x line cs P)
    (hq : ∀ a rest, P a rest → Q a rest) : Gives E x line cs Q := by
  intro s hs hl
  have hx := hx s hs hl
  rcases hr : x s with ⟨a, t⟩ | ⟨e, t⟩ <;> rw [hr] at hx
  · obtain ⟨rest, ht, htl, hp⟩ := hx
    exact ⟨rest, ht, htl, hq a rest hp⟩
  · exact hx

theorem Gives.mono_error {E' : Failure → Prop} {x : ScanM α} {Q : α → List Char → Prop}
    (hx : Gives E x line cs Q) (he : ∀ e, E e → E' e) : Gives E' x line cs Q := by
  intro s hs hl
  have hx := hx s hs hl
  rcases hr : x s with ⟨a, t⟩ | ⟨e, t⟩ <;> rw [hr] at hx
  · exact hx
  · exact he e hx

theorem Gives.map {x : ScanM α} {f : α → β} {P : α → List Char → Prop}
    {Q : β → List Char → Prop} (hx : Gives E x line cs P)
    (hf : ∀ a rest, P a rest → Q (f a) rest) : Gives E (f <$> x) line cs Q := by
  intro s hs hl
  have hx := hx s hs hl
  simp only [Functor.map, EStateM.map]
  rcases hr : x s with ⟨a, t⟩ | ⟨e, t⟩ <;> rw [hr] at hx
  · obtain ⟨rest, ht, htl, hp⟩ := hx
    exact ⟨rest, ht, htl, hf a rest hp⟩
  · exact hx

theorem gives_get {f : Scanner → ScanM β} {Q : β → List Char → Prop}
    (h : ∀ s, s.line = line → Gives E (f s) line cs Q) :
    Gives E (MonadState.get >>= f) line cs Q := fun s hs hl => h s hl s hs hl

theorem gives_refuse {cause : Cause} {Q : α → List Char → Prop} (h : E (.refused ⟨cause, line⟩)) :
    Gives E (refuse cause line) line cs Q := fun _ _ _ => h

/-! ## Steps -/

theorem gives_ofCursor {action : CursorM α} {a : α} {rest : List Char} {Q : α → List Char → Prop}
    (h : ∀ c : Cursor, c.Holds cs → ∃ d, action c = .ok a d ∧ d.Holds rest) (hq : Q a rest) :
    Gives E (ofCursor action) line cs Q := by
  intro s hs hl
  obtain ⟨d, hd, hrest⟩ := h s.cursor hs
  unfold ofCursor
  rw [hd]
  exact ⟨rest, hrest, hl, hq⟩

theorem gives_peek : Gives E peek line cs fun r rest => cs.head? = r ∧ cs = rest :=
  gives_ofCursor (fun _ h => peek_of_holds h) ⟨rfl, rfl⟩

/-- The character is taken, or another stays. -/
theorem gives_accept (c : Char) :
    Gives E (accept c) line cs fun b rest =>
      (b = true ∧ cs = c :: rest) ∨ (b = false ∧ cs.head? ≠ some c ∧ cs = rest) := by
  refine .bind gives_peek ?_
  rintro _ _ ⟨rfl, rfl⟩
  by_cases hc : cs.head? = some c
  · obtain ⟨rest, rfl⟩ := List.head?_eq_some_iff.mp hc
    rw [if_pos hc]
    refine .bind (P := fun _ others => rest = others) (.map (P := fun _ others => rest = others)
      (gives_ofCursor (fun _ h => read_of_holds h) rfl) fun _ _ h => h) ?_
    rintro _ _ rfl
    exact .pure (.inl ⟨rfl, rfl⟩)
  · rw [if_neg hc]
    exact .pure (.inr ⟨rfl, hc, rfl⟩)

theorem gives_foldWhile (step : β → Char → Option β) (b : β) :
    Gives E (foldWhile step b) line cs fun r rest => foldFront step b cs = (r, rest) := by
  intro s hs hl
  obtain ⟨hv, hf, hc⟩ := foldWhile_of_holds step b hs
  unfold foldWhile
  simp only [hf]
  exact ⟨_, hc, hl, by rw [hv]⟩

theorem gives_takeWhile (p : Char → Bool) :
    Gives E (takeWhile p) line cs fun text rest =>
      cs = text.toList ++ rest ∧ (∀ c ∈ text.toList, p c = true) ∧ Stops p rest := by
  refine (gives_foldWhile _ "").mono fun text rest h => ?_
  rw [foldFront_push_eq, String.empty_append, Prod.mk.injEq] at h
  obtain ⟨rfl, rfl⟩ := h
  rw [String.toList_ofList]
  exact ⟨List.takeWhile_append_dropWhile.symm, fun _ => List.mem_takeWhile_imp,
    stops_dropWhile p cs⟩

/-! ## Blanks -/

theorem foldFront_blankStep (line : UInt32) (cs : List Char) :
    foldFront blankStep line cs =
      (lineBehind line (cs.takeWhile Unicode.isBlank), cs.dropWhile Unicode.isBlank) := by
  induction cs generalizing line with
  | nil => exact congrArg (·, []) (lineBehind_nil line).symm
  | cons c cs ih =>
    by_cases hc : Unicode.isBlank c = true
    · rw [List.takeWhile_cons_of_pos hc, List.dropWhile_cons_of_pos hc, lineBehind_cons, foldFront,
        blankStep, if_pos hc]
      exact ih _
    · rw [List.takeWhile_cons_of_neg hc, List.dropWhile_cons_of_neg hc, foldFront, blankStep,
        if_neg hc, lineBehind_nil]

/-- Blanks are skipped to the last, and the lines that they end are counted. -/
theorem skipBlanks_of_holds {s : Scanner} (h : s.cursor.Holds cs) :
    ∃ blanks rest t, cs = blanks ++ rest ∧ (∀ c ∈ blanks, Unicode.isBlank c = true) ∧
      Stops Unicode.isBlank rest ∧ skipBlanks s = .ok () t ∧ t.cursor.Holds rest ∧
        t.line = lineBehind s.line blanks := by
  obtain ⟨hv, hf, hc⟩ := foldWhile_of_holds blankStep s.line h
  rw [foldFront_blankStep] at hv hc
  refine ⟨cs.takeWhile Unicode.isBlank, cs.dropWhile Unicode.isBlank, ⟨_, _⟩,
    List.takeWhile_append_dropWhile.symm, fun _ => List.mem_takeWhile_imp,
    stops_dropWhile _ cs, ?_, hc, hv⟩
  unfold skipBlanks
  simp only [hf]

end Scanner

end ExprLang
