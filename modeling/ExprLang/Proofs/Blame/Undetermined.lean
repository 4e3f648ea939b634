import ExprLang.Proofs.Blame.Programs
import ExprLang.Proofs.Compose.Effect
import ExprLang.Proofs.Layout.Written
import ExprLang.Proofs.Stream.Ascending

/-!
# Names without a type

Between statements every symbol has a type. So a parse never looks for a variable that is not
declared or misses the type of an initializer, and a name whose type cannot be told is the one that
is being declared.

* `Cause.names_no_symbol`: the causes that no name without a type can have.
* `Passes.nonempty`, `Seen.placed`: tokens have a lexeme and stand on a line.
* **`resolved_between_statements`**: what that means for the failures of a parse.
* `undetermined_on_line_zero`: a name on the line on which the counter starts over.
-/

namespace ExprLang

open TokenStream

/-- What the scanner refuses, and what blames a token whatever is in scope, says of no symbol that
it is missing or without a type. -/
theorem Cause.names_no_symbol {cause : Cause}
    (h : cause.category = .lexical ∨ cause.isPlain = true) :
    (∀ id, cause ≠ .invalidVariable id) ∧ cause ≠ .missingRight ∧
      ∀ id, cause ≠ .undeterminedType id := by
  refine ⟨?_, ?_, ?_⟩
  · rintro id rfl
    rcases h with h | h <;> cases h
  · rintro rfl
    rcases h with h | h <;> cases h
  · rintro id rfl
    rcases h with h | h <;> cases h

theorem Scanner.Passes.nonempty {v : Vocabulary} {s t : Scanner} {tokens : List Token}
    (h : Passes v s tokens t) : ∀ token ∈ tokens, token.value ≠ "" := by
  induction h with
  | refl => exact List.forall_mem_nil _
  | token step _ ih => exact List.forall_mem_cons.mpr ⟨(spelled_of_next? step).nonempty, ih⟩
  | ended _ _ ih =>
    exact List.forall_mem_cons.mpr ⟨show "EOF" ≠ "" by decide, ih⟩

namespace Grammar

variable {g : Grammar} {source : Source} {t : ParseState} {token : Token}

/-- A token that a parse has seen is not empty and stands on a line, of which the first is 1. -/
theorem Seen.placed (h : Seen g (g.start source) t token) :
    token.value ≠ "" ∧ (source.lineFeeds < 2 ^ 32 - 1 → 1 ≤ token.line) := by
  obtain ⟨taken, ht, hmem⟩ := h
  obtain ⟨tokens, hp, heq⟩ := ht.passes
  have hpulled : tokens = taken ++ t.tokens.ahead.toList := heq
  rw [← hpulled] at hmem
  refine ⟨hp.nonempty token hmem, fun hfew => (hp.ascending ?_).le token hmem⟩
  change (Scanner.ofSource source).lastLine < 2 ^ 32
  rw [Scanner.lastLine_ofSource]
  omega

/-- **Every symbol is resolved between statements.** So no parse is refused for a variable that is
not declared or an initializer without a type, and a name whose type cannot be told is the one that
is being declared. -/
theorem resolved_between_statements (g : Grammar) (source : Source) :
    (∀ entry room s, Begins g source entry room s → s.scopes.AllSettled) ∧
    ∀ d, g.parse source = .error (.refused d) →
      (∀ id, d.cause ≠ .invalidVariable id) ∧ d.cause ≠ .missingRight ∧
      ∀ id, d.cause = .undeterminedType id →
        id ≠ "" ∧ (source.lineFeeds < 2 ^ 32 - 1 → 1 ≤ d.line) ∧
        ∃ entry room s t keyword name u, Begins g source entry room s ∧ entry ≠ .block ∧
          g.statementIn room s = .error (.refused d) t ∧ keyword.kind ∈ g.declarators ∧
          name.kind = .identifier ∧ Advance g s [keyword, name] u ∧ id = name.value := by
  refine ⟨fun _ _ _ => Begins.allSettled, fun d hd => ?_⟩
  obtain ⟨t, hrun⟩ := parse_eq_error_iff.mp hd
  have hblames : BlamesIn g source (.refused d) t := blames_program g source _ t hrun
  generalize he : Failure.refused d = e at hblames
  cases hblames with
  | scan _ fails =>
    have hlexical := lexical_of_consume fails d he.symm
    obtain ⟨hvariable, hright, htype⟩ := Cause.names_no_symbol (.inl hlexical)
    exact ⟨hvariable, hright, fun id hc => absurd hc (htype id)⟩
  | token _ plain =>
    obtain rfl := Failure.refused.inj he
    obtain ⟨hvariable, hright, htype⟩ := Cause.names_no_symbol (.inr plain)
    exact ⟨hvariable, hright, fun id hc => absurd hc (htype id)⟩
  | untyped seen waits =>
    obtain rfl := Failure.refused.inj he
    obtain ⟨hne, hline⟩ := seen.placed
    obtain ⟨entry, room, s, u, hbegins, hentry, hdeclares, hs⟩ := waits
    obtain ⟨keyword, name, w, starts, hname, hw, hvalue⟩ := hdeclares
    refine ⟨nofun, nofun, ?_⟩
    rintro id ⟨⟩
    exact ⟨hne, hline, entry, room, s, u, keyword, name, w, hbegins, hentry, hs, starts, hname, hw,
      hvalue⟩

theorem resolved_between_statements_self :
    ∃ d entry room s t keyword name u,
      (standard .standard .standard 16).parse
        (.ofString "\x7b var a = 1;\n var b = -(a + b); \x7d") = .error (.refused d) ∧
      (∀ id, d.cause ≠ .invalidVariable id) ∧ d.cause ≠ .missingRight ∧
      d.cause = .undeterminedType "b" ∧ "b" ≠ "" ∧ 1 ≤ d.line ∧
      Begins (standard .standard .standard 16)
        (.ofString "\x7b var a = 1;\n var b = -(a + b); \x7d") entry room s ∧
      s.scopes.AllSettled ∧ entry ≠ .block ∧
      (standard .standard .standard 16).statementIn room s = .error (.refused d) t ∧
      keyword.kind ∈ standardDeclarators ∧ name.kind = .identifier ∧
      Advance (standard .standard .standard 16) s [keyword, name] u ∧ "b" = name.value := by
  obtain ⟨_, hrun⟩ := exists_of_failureOf <| show failureOf
    ((standard .standard .standard 16).parseRun
      (.ofString "\x7b var a = 1;\n var b = -(a + b); \x7d")) =
        some (.refused ⟨.undeterminedType "b", 2⟩) by decide +kernel
  have hparse := parse_eq_error_iff.mpr ⟨_, hrun⟩
  obtain ⟨hsettled, hfailures⟩ := resolved_between_statements (standard .standard .standard 16)
    (.ofString "\x7b var a = 1;\n var b = -(a + b); \x7d")
  obtain ⟨hvariable, hright, hid⟩ := hfailures _ hparse
  obtain ⟨hne, hline, entry, room, s, t, keyword, name, u, hbegins, hnamed⟩ := hid "b" rfl
  exact ⟨_, entry, room, s, t, keyword, name, u, hparse, hvariable, hright, rfl, hne,
    hline (by rw [Source.lineFeeds_ofString]; decide +kernel),
    hbegins, hsettled entry room s hbegins, hnamed⟩

/-! ## The counter of lines starts over -/

/-- A text of line feeds. -/
def lineFeedText (n : Nat) : String := String.ofList (List.replicate n '\n')

/-- Behind line feeds, a name that is declared without a type is blamed on the line behind them. -/
theorem parse_lineFeedText_append (n : Nat) :
    (standard .standard .standard 256).parse (.ofString (lineFeedText n ++ "var b;")) =
      .error (.refused ⟨.undeterminedType "b", 1 + UInt32.ofNat n⟩) := by
  have htext : (lineFeedText n).toList = List.replicate n '\n' := String.toList_ofList
  have hblank : ∀ c ∈ (lineFeedText n).toList, Unicode.isBlank c = true := by
    intro c hc
    rw [htext] at hc
    obtain rfl := List.eq_of_mem_replicate hc
    decide
  obtain ⟨_, hrun⟩ := exists_of_failureOf <| show failureOf
    ((standard .standard .standard 256).parseRun (.ofString "var b;")) =
      some (.refused ⟨.undeterminedType "b", 1⟩) by decide +kernel
  rw [parse_blanks_append _ hblank, parse_eq_error_iff.mpr ⟨_, hrun⟩, htext,
    List.count_replicate_self]
  rfl

/-- **A name may be blamed on line 0**, behind so many lines that the counter has started over. -/
theorem undetermined_on_line_zero : ∃ d,
    (standard .standard .standard 256).parse
        (.ofString (lineFeedText (2 ^ 32 - 1) ++ "var b;")) = .error (.refused d) ∧
      d.cause = .undeterminedType "b" ∧ ¬ 1 ≤ d.line :=
  ⟨_, parse_lineFeedText_append (2 ^ 32 - 1), rfl, by decide⟩

end Grammar

end ExprLang
