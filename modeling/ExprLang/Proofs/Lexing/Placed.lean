import ExprLang.Proofs.Lexing.AnySource
import ExprLang.Proofs.Lexing.Gives
import ExprLang.Proofs.Lexing.Yields

/-!
# Where the next lexeme stands

* **`next?_of_yields`**: behind blanks a lexeme is read as a token on the line that the blanks lead
  to.
-/

namespace ExprLang.Scanner

open Cursor

variable {v : Vocabulary}

/-- There is one way only to tell the blanks in front from what is visible. -/
theorem takeWhile_blanks {gap rest : List Char} (hgap : ∀ c ∈ gap, Unicode.isBlank c = true)
    (hr : Stops Unicode.isBlank rest) : (gap ++ rest).takeWhile Unicode.isBlank = gap := by
  rw [List.takeWhile_append_of_pos hgap]
  cases rest with
  | nil => rw [List.takeWhile_nil, List.append_nil]
  | cons c rest => rw [List.takeWhile_cons_of_neg (by rw [hr c rfl]; decide), List.append_nil]

/-- **Behind blanks a lexeme is read**, as a token on the line that the blanks lead to. -/
theorem next?_of_yields {s : Scanner} {kind : Kind} {value : String} {gap rest : List Char}
    (hs : s.cursor.Holds (gap ++ (value.toList ++ rest)))
    (hgap : ∀ c ∈ gap, Unicode.isBlank c = true) (h : Yields v kind value rest) :
    ∃ t, next? v s = .ok (some ⟨kind, value, lineBehind s.line gap⟩) t ∧ t.cursor.Holds rest ∧
      t.line = lineBehind s.line gap := by
  obtain ⟨c, cs, hc, hvisible⟩ := h.visible
  have hstops : Stops Unicode.isBlank (value.toList ++ rest) := by
    rw [hc]
    rintro _ ⟨⟩
    exact hvisible
  obtain ⟨blanks, others, u, heq, hblanks, hothers, hskip, hu, hline⟩ := skipBlanks_of_holds hs
  have hsplit := congrArg (List.takeWhile Unicode.isBlank) heq
  rw [takeWhile_blanks hgap hstops, takeWhile_blanks hblanks hothers] at hsplit
  subst hsplit
  obtain rfl := List.append_cancel_left heq
  obtain ⟨x, hx, hplaced, hscans⟩ : ∃ x, next? v = (skipBlanks >>= fun _ => x) ∧
      OnLine u.line x (PlacedOn u.line) ∧ Scans x (value.toList ++ rest)
        (fun r => ∃ token, r = some token ∧ IsSpelled kind value token) rest := by
    refine ⟨_, rfl, .bind onLine_peek fun r _ => ?_, .bind scans_peek ?_⟩
    · split
      · exact onLine_some (onLine_lexeme _)
      · exact .pure nofun
    · rintro _ rfl
      rw [hc]
      exact .map (hc ▸ h.reads c) fun token ht => ⟨token, rfl, ht⟩
  obtain ⟨_, t, ht, ⟨⟨kind', value', line⟩, rfl, hspelled⟩, hrest⟩ := hscans u hu
  obtain ⟨rfl, rfl⟩ := hspelled
  have hu := hplaced u rfl
  rw [ht] at hu
  obtain ⟨htl, -, hp⟩ := hu
  obtain rfl : line = u.line := hp _ rfl
  refine ⟨t, ?_, hrest, htl.trans hline⟩
  rw [hx, ← hline]
  simp only [bind, EStateM.bind, hskip, ht]

end ExprLang.Scanner
