import ExprLang.Proofs.Language.Kinds
import ExprLang.Proofs.Parse.Passage

/-!
# Accepted programs are grammatical

* `Reads.derives`, `Forms.derives`: what the rules read are parts of the grammar.
* **`derives_of_parse`**: the tokens of an accepted program, as `tokenize` gives them, are one.
-/

namespace ExprLang.Grammar

open TokenStream

variable {g : Grammar}

/-- The parts of the grammar that the rules for expressions read. -/
def PhraseDerives : Phrase → List Token → Prop
  | .operand, tokens => Derives .primary tokens
  | .signed, tokens => Derives .operand tokens
  | .binding .., tokens => Derives .expression tokens
  | .extension .., tokens => Extends tokens

theorem Reads.derives (hg : g.StandardPositions) {scopes : Scopes} {phrase : Phrase} {room : Nat}
    {tokens : List Token} {next : Token} {tree : Tree}
    (h : Reads g scopes phrase room tokens next tree) :
    PhraseDerives phrase tokens := by
  induction h with
  | literal rule _ => exact .literal (hg.mem_literalKinds rule)
  | symbol rule _ => exact .name (hg.eq_identifier rule)
  | group rule _ close ih => exact .group (hg.eq_openParen rule) ih close
  | sign before _ ih => exact .sign (hg.mem_signKinds before) ih
  | plain _ _ _ ih => exact .plain ih
  | trailed _ _ after _ =>
    rw [hg.isAfter] at after
    cases after
  | binding _ _ ihf iho => exact Derives.extend_operand ihf iho
  | ends | yields => exact .inl rfl
  | extend infix_ _ _ _ _ _ ihr iho =>
    exact .inr ⟨_, _, rfl, hg.mem_infixKinds infix_, Derives.extend ihr iho⟩

theorem PhraseDerives.ne_eof {phrase : Phrase} {tokens : List Token}
    (h : PhraseDerives phrase tokens) : ∀ token ∈ tokens, token.kind ≠ .eof := by
  cases phrase with
  | operand | signed | binding => exact Derives.ne_eof h
  | extension =>
    rcases h with rfl | ⟨operator, rest, rfl, hk, hd⟩
    · exact List.forall_mem_nil _
    · refine List.forall_mem_cons.mpr ⟨fun he => ?_, hd.ne_eof⟩
      rw [he] at hk
      exact absurd hk (by decide)

theorem Clause.derives {tokens : List Token} {type : Option DataType}
    (h : Clause g tokens type) : Derives .typing tokens := by
  cases h with
  | absent => exact .unannotated
  | present mark named _ => exact .annotated mark named

theorem Forms.derives (hg : g.IsStandard) {passage : Passage} {room : Nat}
    {before behind : Scopes} {tokens : List Token} {trees : List Tree}
    (h : Forms g passage room before tokens trees behind) :
    Derives (if passage = .several then .program else .unit) tokens := by
  induction h with
  | semicolon mark => exact .semicolon mark
  | expression mark _ content _ => exact .expression (content.derives hg.positions) mark
  | bare starts named annotated _ mark =>
    exact .declaration (hg.mem_declarators.mp starts) named annotated.derives .uninitialized mark
  | initialized starts named annotated _ equals content mark _ _ =>
    exact .declaration (hg.mem_declarators.mp starts) named annotated.derives
      (.initialized equals (content.derives hg.positions)) mark
  | block opens _ closes ih => exact .block opens ih closes
  | nil => exact .nil
  | cons single _ _ ih ih' =>
    rw [if_neg single] at ih
    exact .cons ih ih'

theorem upcoming_of_eof_ahead {v : Vocabulary} {s : TokenStream} {last : Token}
    (h : s.ahead = some last) (hk : last.kind = .eof) : s.upcoming v = ([], .ok last) := by
  rw [TokenStream.upcoming_of_ahead h, Upcoming.cons_of_eof hk]

/-- The tokens taken up to an `eof` are those that `tokenize` gives. -/
theorem tokenize_of_takes {v : Vocabulary} {s t : TokenStream} {tokens : List Token} {last : Token}
    (hk : last.kind = .eof) (ha : t.ahead = some last) (ht : Takes v s tokens t)
    (hne : ∀ token ∈ tokens, token.kind ≠ .eof) :
    ∃ stream, tokenize v s = .ok (tokens ++ [last]) stream := by
  have hu := ht.upcoming hne
  rw [upcoming_of_eof_ahead ha hk, List.append_nil] at hu
  have hall := tokenize_eq (v := v) s
  rw [hu] at hall
  exact hall.2

/-- **An accepted program is grammatical**: `tokenize` gives its tokens and an `eof`. -/
theorem derives_of_parse (hg : g.IsStandard) {source : Source} {units : List Tree}
    (h : g.parse source = .ok units) :
    ∃ tokens last stream, last.kind = .eof ∧ Derives .program tokens ∧
      TokenStream.tokenize g.vocabulary (.ofSource source) = .ok (tokens ++ [last]) stream := by
  obtain ⟨tokens, last, stream, scopes, hk, ha, ht, hf⟩ := forms_of_parse h
  have hd : Derives .program tokens := hf.derives hg
  obtain ⟨stream', hs⟩ := tokenize_of_takes hk ha ht hd.ne_eof
  exact ⟨tokens, last, stream', hk, hd, hs⟩

end ExprLang.Grammar
