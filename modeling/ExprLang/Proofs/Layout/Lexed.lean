import ExprLang.Proofs.Lexing.Partition
import ExprLang.Proofs.Printing.RoundTrip

/-!
# The lexemes of a text that is laid out anew

What the tokens of a text hold, with blanks between them, is a text of the same lexemes.

* `yields_of_blank`: whatever a token holds is read as this token in front of a blank.
* `joined`: texts and the blanks behind them; **`lexes_joined`**: what it is made of.
-/

namespace ExprLang

namespace Unicode

theorem inRanges_of_isNumeric {c : Char} (h : isNumeric c = true) :
    inRanges ((48, 57) :: numericRanges) c.toNat = true := by
  unfold isNumeric at h
  rw [inRanges, List.any_cons, Bool.or_eq_true]
  split at h
  · have hdigit := inRanges_of_isDigit h
    rw [inRanges, List.any_cons, List.any_nil, Bool.or_false] at hdigit
    exact .inl hdigit
  · exact .inr h

theorem not_isBlank_of_isNumeric {c : Char} (h : isNumeric c = true) : isBlank c = false :=
  not_inRanges_of_disjoint (by decide +kernel) (inRanges_of_isNumeric h)

end Unicode

open Scanner Vocabulary

/-! ## Lexemes in front of blanks -/

/-- A blank comes next, or nothing. -/
def StartsBlank (cs : List Char) : Prop := ∀ c ∈ cs.head?, Unicode.isBlank c = true

theorem StartsBlank.of_blank {cs : List Char} (h : ∀ c ∈ cs, Unicode.isBlank c = true) :
    StartsBlank cs :=
  fun c hc => h c (List.mem_of_head? hc)

theorem not_isBlank_of_continuesWord {c : Char} (h : continuesWord c = true) :
    Unicode.isBlank c = false := by
  unfold continuesWord Unicode.isAlphanumeric at h
  simp only [Bool.or_eq_true] at h
  obtain (h | h) | h := h
  · exact Unicode.not_isBlank_of_isAlphabetic h
  · exact Unicode.not_isBlank_of_isNumeric h
  · obtain rfl := beq_iff_eq.mp h
    decide

variable {rest : List Char}

theorem StartsBlank.delimited {v : Vocabulary} (h : StartsBlank rest) : Delimited v rest := by
  intro c hc
  have hblank := h c hc
  refine ⟨?_, by rw [endsNumber, hblank, Bool.true_or]⟩
  rw [← Bool.not_eq_true]
  intro hword
  rw [not_isBlank_of_continuesWord hword] at hblank
  cases hblank

theorem StartsBlank.separate {value : String} (h : StartsBlank rest) (hv : value ≠ "") :
    Separate standard value rest := by
  have hextensions : extensions.all (!Unicode.isBlank ·) = true := by decide
  cases rest with
  | nil => exact nofun
  | cons c rest =>
    refine separate_of_head hv fun hc => ?_
    have hblank := List.all_eq_true.mp hextensions c hc
    rw [h c rfl] at hblank
    cases hblank

theorem yields_of_blank {kind : Kind} {value : String} (h : Lexeme standard kind value)
    (hdot : kind ≠ .dot) (hr : StartsBlank rest) : Yields standard kind value rest := by
  cases h with
  | word starts continues => exact yields_word starts continues hr.delimited
  | number digits => exact yields_number digits hr.delimited
  | scientific digits signed power => exact yields_scientific digits signed power hr.delimited
  | operator registered =>
    exact yields_standard registered hdot (hr.separate (ne_empty_of_operatorKind? registered))

/-- In the standard language a point is part of a number. -/
theorem Scanner.Spells.kind_ne_dot {raw : List Char} {kind : Kind} {value : String}
    (h : Spells standard raw rest kind value) : kind ≠ .dot := by
  have hkeyword : ∀ e ∈ standard.lexemes.entries, e.2 ≠ .keyword .dot := by decide
  have hoperator : ∀ e ∈ standard.lexemes.entries, reservedKind? e.2 = some .dot → e.1 = "." := by
    decide
  cases h with
  | word =>
    unfold Vocabulary.classify
    split
    · next hl =>
      rintro rfl
      exact hkeyword _ (Table.mem_of_get? hl) rfl
    · decide
    · decide
  | number =>
    unfold numberKind
    split <;> decide
  | @operator c cs _ _ _ starts registered _ =>
    rintro rfl
    obtain ⟨op, hk, hmem⟩ := exists_of_operatorKind? registered
    have hvalue : String.ofList (c :: cs) = "." := hoperator _ hmem (congrArg some hk)
    have hcs : c :: cs = ['.'] := by rw [← String.toList_ofList (l := c :: cs), hvalue]; rfl
    exact starts.2 (by rw [hcs]; rfl)

/-! ## Texts -/

/-- Texts, each with the blanks behind it, one after the other. -/
def joined : List (String × List Char) → List Char
  | [] => []
  | (value, gap) :: pieces => value.toList ++ (gap ++ joined pieces)

/-- **Lexemes with blanks between them are read again.** -/
theorem lexes_joined {pieces : List (String × List Char)} {tokens : List Token} {front : List Char}
    (hvalues : pieces.map Prod.fst = tokens.map Token.value)
    (htokens : ∀ token ∈ tokens, Lexeme standard token.kind token.value ∧ token.kind ≠ .eof ∧
      token.kind ≠ .dot)
    (hfront : ∀ c ∈ front, Unicode.isBlank c = true)
    (hgaps : ∀ piece ∈ pieces, ∀ c ∈ piece.2, Unicode.isBlank c = true)
    (hbetween : ∀ piece ∈ pieces.dropLast, piece.2 ≠ []) :
    Lexes standard (front ++ joined pieces) (tokens.map Token.lexeme) := by
  induction pieces generalizing tokens front with
  | nil =>
    obtain rfl := List.map_eq_nil_iff.mp hvalues.symm
    rw [joined, List.append_nil]
    exact .nil hfront
  | cons piece pieces ih =>
    obtain ⟨value, gap⟩ := piece
    obtain ⟨token, others, rfl, rfl, hvalues'⟩ := List.map_eq_cons_iff.mp hvalues.symm
    obtain ⟨⟨hlexeme, heof, hdot⟩, hothers⟩ := List.forall_mem_cons.mp htokens
    obtain ⟨hgap, hgaps⟩ := List.forall_mem_cons.mp hgaps
    cases pieces with
    | nil =>
      have hends : StartsBlank (gap ++ joined []) := by
        rw [joined, List.append_nil]
        exact .of_blank hgap
      exact .cons hfront (yields_of_blank hlexeme hdot hends) heof
        (ih hvalues'.symm hothers hgap hgaps nofun)
    | cons next pieces =>
      rw [List.dropLast_cons_cons, List.forall_mem_cons] at hbetween
      have hends : StartsBlank (gap ++ joined (next :: pieces)) := by
        intro c hc
        rw [List.head?_append_of_ne_nil _ hbetween.1] at hc
        exact hgap c (List.mem_of_head? hc)
      exact .cons hfront (yields_of_blank hlexeme hdot hends) heof
        (ih hvalues'.symm hothers hgap hgaps hbetween.2)

end ExprLang
