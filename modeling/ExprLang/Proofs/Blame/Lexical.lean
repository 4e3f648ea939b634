import ExprLang.Proofs.Blame.Lines
import ExprLang.Proofs.Language.Sound
import ExprLang.Proofs.Reading.InStep

/-!
# Lexical failures of a parse

A parse pulls tokens as it needs them, and a failed read or a lexical error is met where it looks.
It is the one that `tokenize` meets, for a parse pulls no token behind it, and none behind the end.

* `next?_eq_none`, `next?_of_tape_nil`: at the end the tape is empty, and stays so.
* `Passes.visible`: a scanner that fails has passed no `eof`.
* `tokenize_of_takes_error`: all tokens are refused for what a run of takes is stopped by.
* **`lexical_of_parse`**: a parse and `tokenize` meet the same.
-/

namespace ExprLang

namespace Scanner

variable {v : Vocabulary} {s t : Scanner}

theorem onTape_of_peek {r : Option Char} (h : peek s = .ok r t) :
    attempt Tape.peek s.cursor.tape = (.ok r, t.cursor.tape) := by
  have hpeek := (ofCursor_eq_ok h).1
  rw [Cursor.onTape_peek, attempt_of_ok hpeek]

/-! ## The end of a tape -/

theorem next?_eq_none (h : next? v s = .ok none t) : t.cursor.tape = [] := by
  obtain ⟨_, u, -, h⟩ := bind_eq_ok_iff.mp h
  obtain ⟨r, w, hpeek, h⟩ := bind_eq_ok_iff.mp h
  cases r with
  | some c =>
    obtain ⟨_, -, hsome⟩ := map_eq_ok_iff.mp h
    cases hsome
  | none =>
    obtain ⟨-, rfl⟩ := pure_eq_ok_iff.mp h
    have htape := onTape_of_peek hpeek
    rcases hu : u.cursor.tape with _ | ⟨_ | _, rest⟩ <;> rw [hu] at htape
    · exact (Prod.mk.inj htape).2.symm
    · cases htape
    · cases htape

theorem next?_of_tape_nil (h : s.cursor.tape = []) :
    ∃ t, attempt (next? v) s = (.ok none, t) ∧ t.cursor.tape = [] := by
  have hfold := Cursor.fold_tape blankStep s.line s.cursor
  rw [h] at hfold
  obtain ⟨-, hrest⟩ := Prod.mk.inj hfold
  obtain ⟨hfault, htape⟩ := Prod.mk.inj hrest
  have hpeek := Cursor.onTape_peek (s.cursor.foldWhile blankStep s.line).cursor
  rw [← htape] at hpeek
  obtain ⟨hnone, htape'⟩ := Prod.mk.inj hpeek
  rw [next?, attempt_bind, attempt_skipBlanks, ← hfault]
  simp only [foldOutcome]
  rw [attempt_bind, peek, attempt_ofCursor, ← hnone]
  exact ⟨_, rfl, htape'.symm⟩

/-- Behind the end only `eof` tokens are passed. -/
theorem Passes.tape_nil {tokens : List Token} (h : Passes v s tokens t)
    (hs : s.cursor.tape = []) : t.cursor.tape = [] := by
  induction h with
  | refl => exact hs
  | token step =>
    obtain ⟨_, hnone, -⟩ := next?_of_tape_nil (v := v) hs
    rw [attempt_of_ok step] at hnone
    cases hnone
  | ended step _ ih => exact ih (next?_eq_none step)

theorem Lexeme.kind_ne_eof {kind : Kind} {value : String} (h : Lexeme .standard kind value) :
    kind ≠ .eof := by
  cases h with
  | word => exact classify_ne_eof _
  | @number n =>
    unfold Numeral.kind
    split <;> decide
  | scientific => decide
  | operator registered => exact operatorKind?_ne_eof registered

/-- **Where a scanner fails it has passed no `eof`**, for it would find nothing but the end. -/
theorem Passes.visible {tokens : List Token} (h : Passes .standard s tokens t) {e : Failure}
    {u : Scanner} (hfails : next? .standard t = .error e u) :
    ∀ token ∈ tokens, token.kind ≠ .eof := by
  induction h with
  | refl => exact List.forall_mem_nil _
  | token step _ ih =>
    exact List.forall_mem_cons.mpr ⟨(spelled_of_next? step).lexeme.kind_ne_eof, ih hfails⟩
  | ended step others =>
    obtain ⟨_, hnone, -⟩ :=
      next?_of_tape_nil (v := .standard) (others.tape_nil (next?_eq_none step))
    rw [attempt_of_error hfails] at hnone
    cases hnone

end Scanner

open TokenStream

theorem TokenStream.tokenize_of_takes_error {source : Source} {taken : List Token}
    {stream stuck : TokenStream} {e : Failure}
    (h : Takes .standard (.ofSource source) taken stream)
    (hfails : consume .standard stream = .error e stuck) :
    ∃ t, tokenize .standard (.ofSource source) = .error e t := by
  obtain ⟨hahead, hnext⟩ := next?_of_consume_error hfails
  obtain ⟨tokens, hpasses, hpulled⟩ := h.passes
  have htaken : tokens = taken := by simpa [hahead, TokenStream.ofSource] using hpulled
  have hvisible := hpasses.visible hnext
  rw [htaken] at hvisible
  have hall := tokenize_eq (v := .standard) (.ofSource source)
  rw [h.upcoming hvisible, upcoming_of_consume_error hfails] at hall
  exact hall

namespace Grammar

/-- **A parse and `tokenize` meet the same lexical errors and failed reads**, whatever a source
delivers. -/
theorem lexical_of_parse (typing : TypingTable) (maxDepth : Nat) (source : Source) :
    let parsed := (standard .standard typing maxDepth).parse source
    let all := tokenize .standard (.ofSource source)
    (∀ e, parsed = .error e → e.Lexical → ∃ t, all = .error e t) ∧
      (∀ units, parsed = .ok units → ∃ tokens t, all = .ok tokens t) ∧
      ∀ tokens t e, all = .ok tokens t → parsed = .error e → ¬e.Lexical := by
  intro parsed all
  have hsame : ∀ e, parsed = .error e → e.Lexical → ∃ t, all = .error e t := by
    intro e hparse hlexical
    obtain ⟨t, hrun⟩ := parse_eq_error_iff.mp hparse
    have hblames : BlamesIn _ source e t := blames_program _ source e t hrun
    cases hblames with
    | scan takes fails => exact tokenize_of_takes_error (takes_of_start takes) fails
    | token _ plain => exact absurd (hlexical _ rfl) (Cause.not_lexical_of_isPlain plain)
    | untyped => exact absurd (hlexical _ rfl) nofun
  refine ⟨hsame, ?_, ?_⟩
  · intro units hparse
    obtain ⟨tokens, last, t, -, -, hall⟩ :=
      derives_of_parse (isStandard_standard typing maxDepth) hparse
    exact ⟨_, t, hall⟩
  · intro tokens t e hall hparse hlexical
    obtain ⟨_, herror⟩ := hsame e hparse hlexical
    rw [hall] at herror
    cases herror

theorem lexical_of_parse_failed_read :
    let source := Source.ofString "var a =\n" ++ [.fault "device lost"]
    ∃ t, (standard .standard .standard 16).parse source = .error (.unreadable "device lost") ∧
      tokenize .standard (.ofSource source) = .error (.unreadable "device lost") t := by
  intro source
  obtain ⟨_, hrun⟩ := exists_of_failureOf <| show failureOf
    ((standard .standard .standard 16).parseRun source) = some (.unreadable "device lost") by
      decide +kernel
  have hparse := parse_eq_error_iff.mpr ⟨_, hrun⟩
  have hlexical := Failure.lexical_unreadable "device lost"
  obtain ⟨t, hall⟩ := (lexical_of_parse .standard 16 source).1 _ hparse hlexical
  exact ⟨t, hparse, hall⟩

end Grammar

end ExprLang
