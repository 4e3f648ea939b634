import ExprLang.Proofs.Blame.Programs
import ExprLang.Proofs.Lexing.Origin
import ExprLang.Proofs.Stream.Ascending

/-!
# Lines that are blamed

Whatever a text is refused for, a line of the text is blamed, unless there are so many that the
counter of lines starts over.

* `Takes.line_le`: the tokens pulled from a text are on its lines, the last one on the last of
  these.
* `BlamesLexeme`, `Takes.blamesLexeme`: an error of the scanner is blamed on the line on which the
  offending lexeme starts.
* `Seen.pulled`: what a parse has seen has been pulled from its text.
* **`blamed_line`**: any other is blamed on the line of a token that has been pulled.
-/

namespace ExprLang

open TokenStream Scanner

variable {v : Vocabulary} {text : String} {taken : List Token} {stream : TokenStream}

/-- A token that has been pulled from a text is on one of its lines, and the last one is on no
earlier line. -/
theorem TokenStream.Takes.line_le (hv : v.WithinLines)
    (hfew : text.toList.count '\n' < 2 ^ 32 - 1)
    (h : Takes v (.ofSource (.ofString text)) taken stream) {token : Token}
    (hmem : token ∈ taken ++ stream.ahead.toList) :
    1 ≤ token.line ∧ token.line.toNat ≤ 1 + text.toList.count '\n' ∧
      ∃ last, (taken ++ stream.ahead.toList).getLast? = some last ∧ token.line ≤ last.line := by
  have hlast := List.getLast?_eq_some_getLast (List.ne_nil_of_mem hmem)
  obtain ⟨tokens, hp, heq⟩ := h.passes
  obtain ⟨found, _, _, hfound, htraced, -, -⟩ := h.traced hv
  obtain ⟨x, hx, rfl⟩ := List.mem_map.mp (hfound ▸ hmem)
  obtain ⟨hline, rest, htext, -⟩ := htraced.placed x hx
  have hlow : (Scanner.ofSource (.ofString text)).lastLine < 2 ^ 32 := by
    rw [lastLine_ofSource, Source.lineFeeds_ofString]
    omega
  have hascending : Ascending 1 (taken ++ stream.ahead.toList) := heq ▸ hp.ascending hlow
  refine ⟨hascending.le _ hmem, ?_, _, hlast, hascending.le_getLast hlast _ hmem⟩
  have hcount := congrArg (List.count '\n') htext
  rw [List.append_assoc, List.count_append, List.nil_append] at hcount
  rw [hline, toNat_lineBehind_one (by omega)]
  omega

/-- The scanner fails behind the tokens that have been pulled from the text, and the line is that of
the first character that it cannot read as a lexeme. -/
def BlamesLexeme (v : Vocabulary) (text : String) (e : Failure) (line : UInt32) : Prop :=
  ∃ found front blanks c others stream stuck,
    Takes v (.ofSource (.ofString text)) (found.map Origin.token) stream ∧
    TokenStream.consume v stream = .error e stuck ∧
    Traced v 1 [] text.toList found front (blanks ++ c :: others) ∧
    (∀ c ∈ blanks, Unicode.isBlank c = true) ∧ Unicode.isBlank c = false ∧
    line = lineBehind 1 (front ++ blanks)

theorem TokenStream.Takes.blamesLexeme (hv : v.WithinLines)
    (h : Takes v (.ofSource (.ofString text)) taken stream) {e : Failure} {stuck : TokenStream}
    (hfails : TokenStream.consume v stream = .error e stuck) :
    ∃ d, e = .refused d ∧ d.cause.category = .lexical ∧ BlamesLexeme v text e d.line := by
  obtain ⟨hahead, hnext⟩ := next?_of_consume_error hfails
  obtain ⟨found, front, rest, hfound, htraced, hrest, hline⟩ := h.traced hv
  rw [hahead, Option.toList_none, List.append_nil] at hfound
  obtain ⟨blanks, c, others, cause, rfl, hblank, hc, hcause, rfl⟩ := exists_offending hrest hnext
  refine ⟨_, rfl, hcause, found, front, blanks, c, others, stream, stuck, hfound ▸ h, hfails,
    htraced, hblank, hc, ?_⟩
  rw [hline, lineBehind_append]

theorem BlamesLexeme.line_le {e : Failure} {line : UInt32} (h : BlamesLexeme v text e line)
    (hfew : text.toList.count '\n' < 2 ^ 32 - 1) :
    1 ≤ line ∧ line.toNat ≤ 1 + text.toList.count '\n' := by
  obtain ⟨found, front, blanks, c, others, _, _, -, -, htraced, -, -, rfl⟩ := h
  have hcount := congrArg (List.count '\n') htraced.append_eq
  rw [← List.append_assoc, List.count_append, List.nil_append] at hcount
  have hfront : (front ++ blanks).count '\n' < 2 ^ 32 - 1 := by omega
  have hnumber := toNat_lineBehind_one hfront
  rw [UInt32.le_iff_toNat_le, hnumber, UInt32.toNat_one]
  omega

namespace Grammar

variable {g : Grammar} {t : ParseState}

theorem takes_of_start {source : Source}
    (h : Takes g.vocabulary (g.start source).tokens taken stream) :
    Takes g.vocabulary (.ofSource source) taken stream :=
  .note (.began g.maxDepth) h

theorem Seen.pulled (hv : g.vocabulary.WithinLines) (hfew : text.toList.count '\n' < 2 ^ 32 - 1)
    {token : Token}
    (h : Seen g (g.start (.ofString text)) t token) :
    1 ≤ token.line ∧ token.line.toNat ≤ 1 + text.toList.count '\n' ∧ ∃ taken last,
      Takes g.vocabulary (.ofSource (.ofString text)) taken t.tokens ∧
      token ∈ taken ++ t.tokens.ahead.toList ∧
      (taken ++ t.tokens.ahead.toList).getLast? = some last ∧ token.line ≤ last.line := by
  obtain ⟨taken, htakes, hmem⟩ := h
  have htakes := takes_of_start htakes
  obtain ⟨hpos, hle, last, hlast, hbefore⟩ := htakes.line_le hv hfew hmem
  exact ⟨hpos, hle, taken, last, htakes, hmem, hlast, hbefore⟩

/-- **Every refusal blames a line of the text.** Where no operator contains a line feed, it is the
line of a token pulled so far, and so none behind that of the last one; for a lexical cause it is
the line on which the offending lexeme starts. -/
theorem blamed_line (hv : g.vocabulary.WithinLines) {text : String}
    (hfew : text.toList.count '\n' < 2 ^ 32 - 1) {d : Diagnostic}
    (h : g.parseRun (.ofString text) = .error (.refused d) t) :
    1 ≤ d.line ∧ d.line.toNat ≤ 1 + text.toList.count '\n' ∧
      (d.cause.category = .lexical ∧ BlamesLexeme g.vocabulary text (.refused d) d.line ∨
        d.cause.category ≠ .lexical ∧ ∃ taken token last,
          Takes g.vocabulary (.ofSource (.ofString text)) taken t.tokens ∧
          token ∈ taken ++ t.tokens.ahead.toList ∧ d.line = token.line ∧
          (taken ++ t.tokens.ahead.toList).getLast? = some last ∧ d.line ≤ last.line) := by
  have hblames : BlamesIn g (.ofString text) (.refused d) t := blames_program g _ _ t h
  generalize he : Failure.refused d = e at hblames
  cases hblames with
  | scan takes fails =>
    obtain ⟨_, rfl, hcause, hlexeme⟩ := (takes_of_start takes).blamesLexeme hv fails
    cases he
    obtain ⟨hpos, hle⟩ := hlexeme.line_le hfew
    exact ⟨hpos, hle, .inl ⟨hcause, hlexeme⟩⟩
  | token seen plain =>
    obtain rfl := Failure.refused.inj he
    obtain ⟨hpos, hle, taken, last, htakes, hmem, hlast, hbefore⟩ := seen.pulled hv hfew
    exact ⟨hpos, hle, .inr ⟨Cause.not_lexical_of_isPlain plain, taken, _, last, htakes, hmem, rfl,
      hlast, hbefore⟩⟩
  | untyped seen =>
    obtain rfl := Failure.refused.inj he
    obtain ⟨hpos, hle, taken, last, htakes, hmem, hlast, hbefore⟩ := seen.pulled hv hfew
    exact ⟨hpos, hle, .inr ⟨nofun, taken, _, last, htakes, hmem, rfl, hlast, hbefore⟩⟩

theorem blamed_line_earlier :
    ∃ d t, (standard .standard .standard 16).parseRun (.ofString "var a =\n1 +\n\ntrue;") =
        .error (.refused d) t ∧ Vocabulary.standard.WithinLines ∧
      "var a =\n1 +\n\ntrue;".toList.count '\n' < 2 ^ 32 - 1 ∧
      1 ≤ d.line ∧ d.line.toNat ≤ 1 + "var a =\n1 +\n\ntrue;".toList.count '\n' ∧
      (d.cause.category = .lexical ∧
          BlamesLexeme .standard "var a =\n1 +\n\ntrue;" (.refused d) d.line ∨
        d.cause.category ≠ .lexical ∧ ∃ taken token last,
          Takes .standard (.ofSource (.ofString "var a =\n1 +\n\ntrue;")) taken t.tokens ∧
          token ∈ taken ++ t.tokens.ahead.toList ∧ d.line = token.line ∧
          (taken ++ t.tokens.ahead.toList).getLast? = some last ∧ d.line ≤ last.line) := by
  obtain ⟨t, h⟩ := exists_of_failureOf <| show failureOf
    ((standard .standard .standard 16).parseRun (.ofString "var a =\n1 +\n\ntrue;")) =
      some (.refused ⟨.binaryMismatch "+" "Int" "Bool", 2⟩) by decide +kernel
  have hfew : "var a =\n1 +\n\ntrue;".toList.count '\n' < 2 ^ 32 - 1 := by decide
  exact ⟨_, t, h, Vocabulary.withinLines_standard, hfew,
    blamed_line Vocabulary.withinLines_standard hfew h⟩

end Grammar

end ExprLang
