import ExprLang.Proofs.Lexing.AnySource
import ExprLang.Proofs.Stream.Passes

/-!
# Lines in order

The tokens of a source stand on lines in order, as long as the counter does not start over.

* `Ascending`: each token is on the line of the one in front of it, or on a later one.
* **`Scanner.Passes.ascending`**: the tokens that a scanner passes.
* `Ascending.le`, `Ascending.le_getLast`: the first line and the last one.
-/

namespace ExprLang

/-- The tokens stand behind the line, each on the line of the one in front of it or a later one. -/
def Ascending : UInt32 → List Token → Prop
  | _, [] => True
  | line, token :: tokens => line ≤ token.line ∧ Ascending token.line tokens

theorem Scanner.Passes.ascending {v : Vocabulary} {s t : Scanner} {tokens : List Token}
    (h : Passes v s tokens t) (hlow : s.lastLine < 2 ^ 32) : Ascending s.line tokens := by
  induction h with
  | refl => trivial
  | @token s t _ token _ step _ ih =>
    have hline := next?_onLine v s
    rw [step] at hline
    obtain ⟨htoken, hnext⟩ := hline
    obtain ⟨hle, hlast⟩ := hnext hlow
    exact ⟨hle, htoken ▸ ih (Nat.lt_of_le_of_lt hlast hlow)⟩
  | @ended s t _ _ step _ ih =>
    have hnext := next?_onLine v s
    rw [step] at hnext
    obtain ⟨hle, hlast⟩ := hnext hlow
    exact ⟨hle, ih (Nat.lt_of_le_of_lt hlast hlow)⟩

theorem Ascending.le {line : UInt32} {tokens : List Token} (h : Ascending line tokens) :
    ∀ token ∈ tokens, line ≤ token.line := by
  induction tokens generalizing line with
  | nil => exact List.forall_mem_nil _
  | cons token tokens ih =>
    exact List.forall_mem_cons.mpr ⟨h.1, fun x hx => UInt32.le_trans h.1 (ih h.2 x hx)⟩

/-- The last of the tokens is on the last of their lines. -/
theorem Ascending.le_getLast {line : UInt32} {tokens : List Token} {last : Token}
    (h : Ascending line tokens) (hlast : tokens.getLast? = some last) :
    ∀ token ∈ tokens, token.line ≤ last.line := by
  induction tokens generalizing line with
  | nil => exact List.forall_mem_nil _
  | cons token tokens ih =>
    cases tokens with
    | nil =>
      cases hlast
      exact List.forall_mem_singleton.mpr (UInt32.le_refl _)
    | cons next rest =>
      rw [List.getLast?_cons_cons] at hlast
      have hnext := ih h.2 hlast
      have hfirst := UInt32.le_trans h.2.1 (hnext next List.mem_cons_self)
      exact List.forall_mem_cons.mpr ⟨hfirst, hnext⟩

end ExprLang
