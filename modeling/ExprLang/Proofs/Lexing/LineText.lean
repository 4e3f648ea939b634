import Mathlib.Data.List.SplitBy
import ExprLang.Diagnostic.Report
import ExprLang.Proofs.Lexing.Origin

/-!
# The line a token is on

The line of a token is a line of the text, and shows its lexeme.

* `linesWithEnds_lineFeed`, `linesWithEnds_of_notMem`: the lines of a text, one by one.
* `exists_lineText`: what contains no end of a line is in the line that the line feeds in front of
  it count off.
* **`exists_origins`**: all that the tokenizer says about lines.
-/

namespace ExprLang

/-! ## The lines of a text -/

variable {word more : List Char}

theorem isChain_concat (h : '\n' ∉ word) (last : Char) :
    (word ++ [last]).IsChain fun c _ => (c != '\n') = true := by
  induction word with
  | nil => exact List.isChain_singleton _
  | cons c word ih =>
    rw [List.mem_cons, not_or] at h
    exact List.isChain_cons.mpr ⟨fun _ _ => bne_iff_ne.mpr (Ne.symm h.1), ih h.2⟩

theorem linesWithEnds_lineFeed (h : '\n' ∉ word) (more : List Char) :
    linesWithEnds (word ++ '\n' :: more) = (word ++ ['\n']) :: linesWithEnds more := by
  have hends : ∀ x ∈ (word ++ ['\n']).getLast?, ∀ y ∈ more.head?, (x != '\n') = false := by
    rw [List.getLast?_concat]
    rintro x ⟨⟩ _ _
    rfl
  unfold linesWithEnds
  rw [List.append_cons, List.splitBy_append hends,
    List.splitBy_of_isChain (by simp) (isChain_concat h _)]
  rfl

theorem linesWithEnds_of_notMem (h : '\n' ∉ word) (hne : word ≠ []) :
    linesWithEnds word = [word] := by
  obtain ⟨front, last, rfl⟩ := (List.eq_nil_or_concat' word).resolve_left hne
  exact List.splitBy_of_isChain hne
    (isChain_concat (fun hmem => h (List.mem_append_left _ hmem)) last)

theorem exists_first_line (h : '\n' ∉ word) (hne : word ≠ []) (more : List Char) :
    ∃ behind others, linesWithEnds (word ++ more) = (word ++ behind) :: others := by
  by_cases hmem : '\n' ∈ more
  · obtain ⟨behind, more, rfl, hbehind⟩ := List.eq_append_cons_of_mem hmem
    refine ⟨behind ++ ['\n'], linesWithEnds more, ?_⟩
    rw [← List.append_assoc, ← List.append_assoc,
      linesWithEnds_lineFeed (List.mem_append.not.mpr (not_or.mpr ⟨h, hbehind⟩))]
  · refine ⟨more, [], linesWithEnds_of_notMem ?_ (by simp [hne])⟩
    exact List.mem_append.not.mpr (not_or.mpr ⟨h, hmem⟩)

/-- **The line feeds in front of a word count off its line.** -/
theorem exists_line (h : '\n' ∉ word) (hne : word ≠ []) (front more : List Char) :
    ∃ before behind, (linesWithEnds (front ++ (word ++ more)))[front.count '\n']? =
      some (before ++ word ++ behind) := by
  induction hn : front.length using Nat.strong_induction_on generalizing front with
  | _ n ih =>
    by_cases hmem : '\n' ∈ front
    · obtain ⟨line, rest, rfl, hline⟩ := List.eq_append_cons_of_mem hmem
      obtain ⟨before, behind, hfound⟩ := ih rest.length (by simp [← hn]; omega) rest rfl
      refine ⟨before, behind, ?_⟩
      rw [List.append_assoc, List.cons_append, linesWithEnds_lineFeed hline, List.count_append,
        List.count_eq_zero.mpr hline, List.count_cons_self, Nat.zero_add,
        List.getElem?_cons_succ, hfound]
    · obtain ⟨behind, others, hlines⟩ := exists_first_line
        (List.mem_append.not.mpr (not_or.mpr ⟨hmem, h⟩)) (by simp [hne]) more
      refine ⟨front, behind, ?_⟩
      rw [← List.append_assoc, hlines, List.count_eq_zero.mpr hmem, List.getElem?_cons_zero]

/-- What is cut off from a line is its end. -/
theorem exists_lineEnd (line : List Char) :
    ∃ ending, line = withoutEnd line ++ ending ∧ ∀ c ∈ ending, c = '\n' ∨ c = '\r' := by
  unfold withoutEnd
  split
  · next hlast =>
    have hline : line = line.dropLast ++ ['\n'] := (List.dropLast_append_getLast? _ hlast).symm
    simp only
    split
    · next hcr =>
      have hbody := (List.dropLast_append_getLast? _ hcr).symm
      refine ⟨['\r', '\n'], ?_, by simp⟩
      rw [hbody] at hline
      rw [hline]
      simp
    · exact ⟨['\n'], hline, by simp⟩
  · exact ⟨[], (List.append_nil _).symm, List.forall_mem_nil _⟩

/-- A word that contains no end of a line is not cut off. -/
theorem infix_withoutEnd (hends : ∀ c ∈ word, c ≠ '\n' ∧ c ≠ '\r') (hne : word ≠ [])
    (before behind : List Char) : word <:+: withoutEnd (before ++ word ++ behind) := by
  obtain ⟨ending, heq, hending⟩ := exists_lineEnd (before ++ word ++ behind)
  rcases List.append_eq_append_iff.mp heq with ⟨rest, h, -⟩ | ⟨rest, h, rfl⟩
  · exact ⟨before, rest, h.symm⟩
  · rcases List.eq_nil_or_concat' rest with rfl | ⟨rest, last, rfl⟩
    · rw [List.append_nil] at h
      exact h ▸ List.suffix_append before word |>.isInfix
    · -- the last character of the word would belong to the end of the line
      have hlast := congrArg List.getLast? h
      rw [List.getLast?_append_of_ne_nil _ hne, ← List.append_assoc, List.getLast?_concat] at hlast
      have hword := hends last (List.mem_of_getLast? hlast)
      rcases hending last (by simp) with rfl | rfl
      · exact absurd rfl hword.1
      · exact absurd rfl hword.2

/-- **The line of a word** is the one that the line feeds in front of it count off. -/
theorem exists_lineText (hends : ∀ c ∈ word, c ≠ '\n' ∧ c ≠ '\r') (hne : word ≠ []) {text : String}
    {front : List Char} (h : text.toList = front ++ (word ++ more))
    (hfew : front.count '\n' < 2 ^ 32 - 1) :
    ∃ line, lineText? text (lineBehind 1 front) = some line ∧ word <:+: line.toList := by
  obtain ⟨before, behind, hline⟩ :=
    exists_line (fun hmem => (hends _ hmem).1 rfl) hne front more
  refine ⟨String.ofList (withoutEnd (before ++ word ++ behind)), ?_, ?_⟩
  · have hnumber := toNat_lineBehind_one hfew
    have hzero : lineBehind 1 front ≠ 0 := by
      intro hz
      rw [hz, UInt32.toNat_zero] at hnumber
      omega
    unfold lineText?
    rw [if_neg hzero, hnumber, Nat.add_sub_cancel_left, h, hline]
    rfl
  · rw [String.toList_ofList]
    exact infix_withoutEnd hends hne before behind

/-! ## Tokens -/

open Scanner Vocabulary

theorem Scanner.Spells.not_isBlank {raw rest : List Char} {kind : Kind} {value : String}
    (h : Spells standard raw rest kind value) : ∀ c ∈ raw, Unicode.isBlank c = false := by
  cases h with
  | word starts continues =>
    exact List.forall_mem_cons.mpr ⟨not_isBlank_of_startsWord starts,
      fun c hc => not_isBlank_of_continuesWord (continues c hc)⟩
  | number written =>
    have hmarks : numberMarks.all (fun c => !Unicode.isBlank c) = true := by decide
    refine fun c hc => (written.isDigit_or_mem c hc).elim Unicode.not_isBlank_of_isDigit ?_
    exact fun hmem => by simpa using List.all_eq_true.mp hmarks c hmem
  | operator _ _ registered =>
    have hall : ∀ e ∈ standard.lexemes.entries, isOperator e.2 = true →
        e.1.toList.all (fun c => !Unicode.isBlank c) = true := by decide
    obtain ⟨op, -, hmem⟩ := exists_of_operatorKind? registered
    simpa using hall _ hmem rfl

theorem Scanner.Spells.exists_lineText {text : String} {front raw rest : List Char} {kind : Kind}
    {value : String} (h : Spells standard raw rest kind value)
    (htext : text.toList = front ++ (raw ++ rest)) (hfew : front.count '\n' < 2 ^ 32 - 1) :
    ∃ line, lineText? text (lineBehind 1 front) = some line ∧ raw <:+: line.toList := by
  have hends : ∀ c ∈ raw, c ≠ '\n' ∧ c ≠ '\r' := by
    refine fun c hc => ⟨?_, ?_⟩ <;> rintro rfl <;> exact absurd (h.not_isBlank _ hc) (by decide)
  exact ExprLang.exists_lineText hends h.ne_nil htext hfew

theorem Scanner.Traced.shown {text : String} {found : List Origin} {front rest : List Char}
    (h : Traced standard 1 [] text.toList found front rest)
    (hfew : text.toList.count '\n' < 2 ^ 32 - 1) :
    ∀ x ∈ found, x.front ++ x.raw <+: text.toList ∧ x.token.line.toNat = 1 + x.front.count '\n' ∧
      (x.token.kind ≠ .eof → ∃ line, lineText? text x.token.line = some line ∧
        x.raw <:+: line.toList) := by
  intro x hx
  obtain ⟨hline, behind, htext, hraw⟩ := h.placed x hx
  have hcount := congrArg (List.count '\n') htext
  rw [List.append_assoc, List.count_append, List.nil_append] at hcount
  have hfront : x.front.count '\n' < 2 ^ 32 - 1 := by omega
  refine ⟨⟨behind, htext⟩, by rw [hline, toNat_lineBehind_one hfront], fun hk => ?_⟩
  rcases hraw with ⟨-, -, heof⟩ | hspells
  · rw [heof] at hk
    exact absurd rfl hk
  · rw [hline]
    rw [List.append_assoc] at htext
    exact hspells.exists_lineText htext.symm hfront

theorem Scanner.Traced.eq_eofToken {text : String} {found : List Origin} {front rest : List Char}
    (h : Traced standard 1 [] text.toList found front rest) {x : Origin} (hx : x ∈ found)
    (hk : x.token.kind = .eof) :
    x.token = TokenStream.eofToken (lineBehind 1 text.toList) := by
  obtain ⟨hline, behind, htext, ⟨hraw, rfl, heof⟩ | hspells⟩ := h.placed x hx
  · rw [hraw, List.append_nil, List.append_nil, List.nil_append] at htext
    rw [← htext, ← hline, ← heof]
  · exact absurd hk hspells.kind_ne_eof

open TokenStream

/-- **Lines agree with the text**, unless it has so many that the counter starts over. Tokens are on
the line that the line feeds in front of their lexeme count off, where the text shows it; an error
is blamed on the line of the character that the offending lexeme starts with. -/
theorem exists_origins (text : String) (hfew : text.toList.count '\n' < 2 ^ 32 - 1) :
    ∃ found front rest stream,
      Takes .standard (.ofSource (.ofString text)) (found.map Origin.token) stream ∧
      Traced .standard 1 [] text.toList found front rest ∧
      (∀ x ∈ found, x.front ++ x.raw <+: text.toList ∧
        x.token.line.toNat = 1 + x.front.count '\n' ∧
        (x.token.kind ≠ .eof → ∃ line, lineText? text x.token.line = some line ∧
          x.raw <:+: line.toList)) ∧
      match tokenize .standard (.ofSource (.ofString text)) with
      | .ok tokens _ => tokens = found.map Origin.token ∧
          ∃ line : UInt32, line.toNat = 1 + text.toList.count '\n' ∧
            tokens.getLast? = some (eofToken line)
      | .error e _ => ∃ blanks c others cause line t, rest = blanks ++ c :: others ∧
          (∀ c ∈ blanks, Unicode.isBlank c = true) ∧ Unicode.isBlank c = false ∧
          cause.category = .lexical ∧ e = .refused ⟨cause, line⟩ ∧
          line.toNat = 1 + (front ++ blanks).count '\n' ∧
          consume .standard stream = .error e t := by
  have hall := tokenize_eq (v := .standard) (.ofSource (.ofString text))
  rcases hu : (TokenStream.ofSource (.ofString text)).upcoming .standard with
    ⟨tokens, e | last⟩ <;> rw [hu] at hall
  · obtain ⟨_, htokenize⟩ := hall
    rw [← List.append_nil tokens] at hu
    obtain ⟨stream, htakes, hupcoming⟩ := exists_takes hu
    obtain ⟨t, hconsume⟩ := consume_of_upcoming_nil hupcoming
    obtain ⟨hahead, hnext⟩ := next?_of_consume_error hconsume
    obtain ⟨found, front, rest, heq, htraced, hrest, hline⟩ :=
      htakes.traced Vocabulary.withinLines_standard
    rw [hahead, Option.toList_none, List.append_nil] at heq
    obtain ⟨blanks, c, others, cause, rfl, hblank, hc, hcause, rfl⟩ := exists_offending hrest hnext
    rw [htokenize]
    have hplace : lineBehind stream.scanner.line blanks = lineBehind 1 (front ++ blanks) := by
      rw [hline, lineBehind_append]
    refine ⟨found, front, _, stream, heq ▸ htakes, htraced, htraced.shown hfew, blanks, c, others,
      cause, _, t, rfl, hblank, hc, hcause, rfl, ?_, hconsume⟩
    have hcount := congrArg (List.count '\n') htraced.append_eq
    rw [← List.append_assoc, List.count_append, List.nil_append] at hcount
    rw [hplace, toNat_lineBehind_one (by omega)]
  · obtain ⟨hk, _, htokenize⟩ := hall
    rw [← List.append_nil tokens] at hu
    obtain ⟨t, htakes, hupcoming⟩ := exists_takes hu
    obtain ⟨stream, hconsume⟩ := consume_of_upcoming_nil hupcoming
    have htakes := htakes.trans (.take hconsume (.refl stream))
    obtain ⟨found, front, rest, heq, htraced, -, -⟩ :=
      htakes.traced Vocabulary.withinLines_standard
    rw [ahead_of_consume hconsume, Option.toList_none, List.append_nil] at heq
    rw [htokenize]
    refine ⟨found, front, rest, stream, heq ▸ htakes, htraced, htraced.shown hfew, heq,
      lineBehind 1 text.toList, toNat_lineBehind_one hfew, ?_⟩
    obtain ⟨x, hx, rfl⟩ := List.mem_map.mp (heq ▸ List.mem_concat_self : last ∈ found.map _)
    rw [List.getLast?_concat, htraced.eq_eofToken hx hk]

theorem exists_origins_unreadable :
    "var a\n  = 1;\n\tb $".toList.count '\n' < 2 ^ 32 - 1 ∧ ∃ found front rest stream,
      Takes .standard (.ofSource (.ofString "var a\n  = 1;\n\tb $")) (found.map Origin.token)
        stream ∧
      Traced .standard 1 [] "var a\n  = 1;\n\tb $".toList found front rest ∧
      (∀ x ∈ found, x.front ++ x.raw <+: "var a\n  = 1;\n\tb $".toList ∧
        x.token.line.toNat = 1 + x.front.count '\n' ∧
        (x.token.kind ≠ .eof → ∃ line,
          lineText? "var a\n  = 1;\n\tb $" x.token.line = some line ∧ x.raw <:+: line.toList)) ∧
      ∃ blanks c others cause line t, rest = blanks ++ c :: others ∧
        (∀ c ∈ blanks, Unicode.isBlank c = true) ∧ Unicode.isBlank c = false ∧
        cause.category = .lexical ∧ line.toNat = 1 + (front ++ blanks).count '\n' ∧
        consume .standard stream = .error (.refused ⟨cause, line⟩) t := by
  have hfew : "var a\n  = 1;\n\tb $".toList.count '\n' < 2 ^ 32 - 1 := by decide +kernel
  obtain ⟨found, front, rest, stream, htakes, htraced, hshown, hend⟩ := exists_origins _ hfew
  have hfails : (match tokenize .standard (.ofSource (.ofString "var a\n  = 1;\n\tb $")) with
      | .ok .. => false
      | .error .. => true) = true := by decide +kernel
  refine ⟨hfew, found, front, rest, stream, htakes, htraced, hshown, ?_⟩
  split at hfails
  · cases hfails
  · next htokenize =>
    rw [htokenize] at hend
    obtain ⟨blanks, c, others, cause, line, t, hrest, hblank, hc, hcause, rfl, hline, hconsume⟩ :=
      hend
    exact ⟨blanks, c, others, cause, line, t, hrest, hblank, hc, hcause, hline, hconsume⟩

end ExprLang
