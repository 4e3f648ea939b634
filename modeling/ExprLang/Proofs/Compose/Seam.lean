import ExprLang.Proofs.Compose.Steady
import ExprLang.Proofs.Lexing.Origin

/-!
# Where a text goes on

The tokens of a text are found in a longer one, too, if the last of them is a semicolon or a closing
brace, which nothing that follows can become a part of.

* `Spells.closing`: nothing extends a semicolon or a closing brace.
* **`Passes.append`**: the same tokens are passed in the longer text.
-/

namespace ExprLang.Scanner

open Cursor Vocabulary

/-! ## The last token -/

theorem Spells.closing {raw rest : List Char} {kind : Kind} {value : String}
    (h : Spells standard raw rest kind value) (hk : kind ∈ closingKinds) :
    raw = value.toList ∧ ∀ more, Yields standard kind value more := by
  have hkeyword : ∀ e ∈ standard.lexemes.entries, ∀ k ∈ closingKinds, e.2 ≠ .keyword k := by
    decide
  have hoperator : ∀ e ∈ standard.lexemes.entries, ∀ k ∈ closingKinds,
      reservedKind? e.2 = some k → e.1.toList.head? ∈ [some ';', some '\x7d'] := by decide
  have hlonger : ∀ e ∈ standard.lexemes.entries, isOperator e.2 = true →
      e.1.toList.length ≤ 1 ∨ e.1.toList.head? ∉ [some ';', some '\x7d'] := by decide
  cases h with
  | word =>
    unfold Vocabulary.classify at hk
    split at hk
    · next hl => exact absurd rfl (hkeyword _ (Table.mem_of_get? hl) _ hk)
    · exact absurd hk (by decide)
    · exact absurd hk (by decide)
  | number =>
    unfold numberKind at hk
    split at hk <;> exact absurd hk (by decide)
  | @operator c cs _ _ _ _ registered _ =>
    refine ⟨String.toList_ofList.symm, fun more => yields_standard registered ?_ fun d _ => ?_⟩
    · exact (by decide : ∀ k ∈ closingKinds, k ≠ .dot) _ hk
    · obtain ⟨op, hop, hmem⟩ := exists_of_operatorKind? registered
      have hhead := hoperator _ hmem _ hk (congrArg some hop)
      rcases hd : standard.operatorKind? ((String.ofList (c :: cs)).push d) with _ | kind'
      · rfl
      · obtain ⟨op', -, hmem'⟩ := exists_of_operatorKind? hd
        have hlong := hlonger _ hmem' rfl
        rw [String.toList_ofList] at hhead
        rw [String.toList_push, String.toList_ofList] at hlong
        exact absurd hhead (hlong.resolve_left (by simp))

/-! ## Longer texts -/

theorem Passes.ne_nil {v : Vocabulary} {s t : Scanner} {token : Token} {tokens : List Token}
    {cs : List Char} (h : Passes v s (token :: tokens) t) (hk : token.kind ≠ .eof)
    (hs : s.cursor.Holds cs) : cs ≠ [] := by
  cases h with
  | ended => exact absurd rfl hk
  | token step =>
    obtain ⟨blanks, others, rfl, -, h⟩ := next?_of_holds (v := v) hs
    rw [step] at h
    obtain ⟨rest, ⟨raw, rfl, hspells, -⟩, -⟩ := h
    simp [hspells.ne_nil]

/-- **The tokens of a text are found in a longer one**, if the last of them ends a unit. -/
theorem Passes.append {s s' t : Scanner} {tokens : List Token} {cs more : List Char}
    (h : Passes standard s tokens t) (hvisible : ∀ token ∈ tokens, token.kind ≠ .eof)
    (hlast : ∀ token ∈ tokens.getLast?, token.kind ∈ closingKinds) (hs : s.cursor.Holds cs)
    (hs' : s'.cursor.Holds (cs ++ more)) (hline : s'.line = s.line) :
    ∃ rest t', t.cursor.Holds rest ∧ Passes standard s' tokens t' ∧
      t'.cursor.Holds (rest ++ more) ∧ t'.line = t.line := by
  induction h generalizing s' cs with
  | refl => exact ⟨cs, s', hs, .refl _, hs', hline⟩
  | ended => exact absurd rfl (hvisible _ List.mem_cons_self)
  | @token s t u token tokens step others ih =>
    obtain ⟨hk, hvisible⟩ := List.forall_mem_cons.mp hvisible
    -- it is enough to find the first token, and the same characters behind it
    suffices hfirst : ∃ rest t', t.cursor.Holds rest ∧ next? standard s' = .ok (some token) t' ∧
        t'.cursor.Holds (rest ++ more) ∧ t'.line = t.line by
      obtain ⟨rest, t', ht, hstep, ht', htline⟩ := hfirst
      obtain ⟨rest', u', hu, hothers, hu'⟩ := ih hvisible
        (fun last hl => hlast last (by rw [List.getLast?_cons, Option.mem_def.mp hl]; rfl))
        ht ht' htline
      exact ⟨rest', u', hu, .token hstep hothers, hu'⟩
    obtain ⟨blanks, visible, rfl, hblank, h⟩ := next?_of_holds (v := standard) hs
    rw [step] at h
    obtain ⟨rest, ⟨raw, rfl, hspells, hplace⟩, ht, htline⟩ := h
    cases tokens with
    | nil =>
      obtain ⟨rfl, hyields⟩ := hspells.closing (hlast token rfl)
      rw [List.append_assoc, List.append_assoc] at hs'
      obtain ⟨t', hstep, ht', htline'⟩ := next?_of_yields hs' hblank (hyields _)
      refine ⟨rest, t', ht, ?_, ht', by rw [htline', htline, hline]⟩
      rw [hstep, hline, ← hplace]
    | cons next tokens =>
      have hlevel : lineBehind s'.line [] = s.line + 0 := by
        rw [lineBehind_nil, hline, UInt32.add_zero]
      have hsteady := next?_steady (v := standard) (n := 0) hs (List.forall_mem_nil _) hs' hlevel
      rw [step] at hsteady
      obtain ⟨rest', -, ht', hfound⟩ := hsteady
      have hrest := others.ne_nil (hvisible _ List.mem_cons_self) ht'
      obtain ⟨t', hstep, hbeyond⟩ := hfound (.inl hrest)
      rw [shifted, Option.map_some, Token.shift_zero] at hstep
      exact ⟨rest', t', ht', hstep, hbeyond.holds, hbeyond.line.trans (UInt32.add_zero _)⟩

end ExprLang.Scanner
