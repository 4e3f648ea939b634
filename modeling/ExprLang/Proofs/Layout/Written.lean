import ExprLang.Proofs.Language.Derivation
import ExprLang.Proofs.Layout.Respaced
import ExprLang.Proofs.Lexing.Placed
import ExprLang.Proofs.Stream.Passes

/-!
# Texts of given tokens

Tokens that are spelled as tokens can be are the tokens of a text, whatever lines they stand on.

* `written`, **`upcoming_written`**: the text of tokens, with their lines.
* `spelling`, `lexeme_spelling`: a way to spell each kind of the grammar.
-/

namespace ExprLang

open Scanner Vocabulary

/-! ## Texts -/

/-- Tokens behind a line, each written on its own line and with a space in front of it. -/
def written : UInt32 → List Token → List Char
  | _, [] => []
  | line, token :: tokens =>
    (List.replicate (token.line - line).toNat '\n' ++ [' ']) ++
      (token.value.toList ++ written token.line tokens)

theorem startsBlank_written (line : UInt32) (tokens : List Token) :
    StartsBlank (written line tokens) := by
  cases tokens with
  | nil => exact nofun
  | cons token tokens =>
    intro c hc
    unfold written at hc
    rcases hn : (token.line - line).toNat with _ | n <;> rw [hn] at hc <;> cases hc <;> rfl

/-- **The tokens of a text that was written down are those it was written for.** -/
theorem upcoming_written {s : Scanner} {tokens : List Token}
    (hs : s.cursor.Holds (written s.line tokens))
    (hspelled : ∀ token ∈ tokens, Lexeme standard token.kind token.value)
    (hkinds : ∀ token ∈ tokens, token.kind ∈ programKinds) :
    ∃ last, last.kind = .eof ∧ s.upcoming standard = (tokens, .ok last) := by
  induction tokens generalizing s with
  | nil =>
    obtain ⟨tokens, last, hu, hl⟩ := (Lexes.nil (v := standard) (List.forall_mem_nil _)).upcoming hs
    obtain rfl := List.map_eq_nil_iff.mp hl
    exact ⟨last, (Scanner.upcoming_ended standard s).ending last (by rw [hu]), hu⟩
  | cons token tokens ih =>
    obtain ⟨hlexeme, hspelled⟩ := List.forall_mem_cons.mp hspelled
    obtain ⟨hkind, hkinds⟩ := List.forall_mem_cons.mp hkinds
    have hgap : ∀ c ∈ List.replicate (token.line - s.line).toNat '\n' ++ [' '],
        Unicode.isBlank c = true := by
      refine List.forall_mem_append.mpr ⟨fun c hc => ?_, List.forall_mem_singleton.mpr rfl⟩
      rw [List.eq_of_mem_replicate hc]
      rfl
    have hdot : token.kind ≠ .dot := (by decide : ∀ k ∈ programKinds, k ≠ .dot) _ hkind
    have heof : token.kind ≠ .eof := (by decide : ∀ k ∈ programKinds, k ≠ .eof) _ hkind
    have hyields := yields_of_blank hlexeme hdot (startsBlank_written token.line tokens)
    obtain ⟨t, hnext, ht, hline⟩ := next?_of_yields hs hgap hyields
    have hcount : (List.replicate (token.line - s.line).toNat '\n' ++ [' ']).count '\n' =
        (token.line - s.line).toNat := by
      rw [List.count_append, List.count_replicate_self]
      rfl
    have hbehind : lineBehind s.line
        (List.replicate (token.line - s.line).toNat '\n' ++ [' ']) = token.line := by
      rw [lineBehind, hcount, UInt32.ofNat_toNat, UInt32.add_comm, UInt32.sub_add_cancel]
    rw [hbehind] at hnext hline
    obtain ⟨last, hlast, hu⟩ := ih (hline.symm ▸ ht) hspelled hkinds
    refine ⟨last, hlast, ?_⟩
    rw [Scanner.upcoming_eq, hnext]
    simp only [hu, Upcoming.cons_of_ne heof]

/-! ## Spellings -/

/-- The kinds that words have. -/
def wordKinds : List Kind := [.identifier, .boolLiteral, .typeName, .varDecl, .constDecl]

/-- A way to spell a kind; nothing for a kind that programs have no tokens of. -/
def spelling : Kind → String
  | .identifier => "x"
  | .boolLiteral => "true"
  | .typeName => "Int"
  | .varDecl => "var"
  | .constDecl => "const"
  | .intLiteral => "0"
  | .floatLiteral => "0.0"
  | .plus => "+"
  | .dash => "-"
  | .star => "*"
  | .slash => "/"
  | .percent => "%"
  | .pow => "**"
  | .ampersand => "&"
  | .pipe => "|"
  | .and => "&&"
  | .or => "||"
  | .greater => ">"
  | .less => "<"
  | .equals => "=="
  | .notEquals => "!="
  | .greaterEquals => ">="
  | .lessEquals => "<="
  | .openParen => "("
  | .closeParen => ")"
  | .openCurly => "\x7b"
  | .closeCurly => "\x7d"
  | .colon => ":"
  | .semicolon => ";"
  | .assignment => "="
  | _ => ""

theorem lexeme_spelling {kind : Kind} (h : kind ∈ programKinds) :
    Lexeme standard kind (spelling kind) := by
  have hsplit : ∀ k ∈ programKinds, standard.operatorKind? (spelling k) = some k ∨
      k ∈ wordKinds ∨ k = .intLiteral ∨ k = .floatLiteral := by decide
  have hwords : ∀ k ∈ wordKinds, standard.classify (spelling k) = k ∧
      (spelling k).toList.head?.any startsWord = true ∧
        (spelling k).toList.all continuesWord = true := by decide
  have hdigits : Digits "0" := List.forall_mem_singleton.mpr rfl
  rcases hsplit kind h with hoperator | hword | rfl | rfl
  · exact .operator hoperator
  · obtain ⟨hclass, hstarts, hall⟩ := hwords kind hword
    obtain ⟨c, hc, hstarts⟩ := (Option.any_eq_true _ _).mp hstarts
    obtain ⟨cs, hcs⟩ := List.head?_eq_some_iff.mp hc
    have hspelled : String.ofList (c :: cs) = spelling kind := by rw [← hcs, String.ofList_toList]
    rw [hcs, List.all_cons, Bool.and_eq_true, List.all_eq_true] at hall
    have hlexeme := Lexeme.word (v := standard) hstarts hall.2
    rwa [hspelled, hclass] at hlexeme
  · exact .number (n := ⟨"0", none⟩) ⟨hdigits, nofun⟩
  · refine .number (n := ⟨"0", some "0"⟩) ⟨hdigits, ?_⟩
    rintro _ ⟨⟩
    exact hdigits

end ExprLang
