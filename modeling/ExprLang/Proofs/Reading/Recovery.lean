import ExprLang.Proofs.Compose.Seam
import ExprLang.Proofs.Reading.InStep
import ExprLang.Proofs.Reading.Loss
import ExprLang.Proofs.Stream.Calls

/-!
# Behind a loss

A failed read, or a line that is not UTF-8, costs the bytes of its own line. The tokens in front of
that line are what they are without it, one take fails, and behind it scanning goes on as if there
had been nothing but lines in front.

* `attempt_consume`, `takesAlone_follows`: takes from streams whose scanners are in step.
* `Traced.terminated`, `next?_of_lost`: the last token of a line does not reach the loss behind it.
* **`takesAlone_of_lost`**: the tokens in front, one failure, and what a fresh stream gives.
-/

namespace ExprLang

/-! ## Takes in step -/

namespace TokenStream

open Scanner

variable {v : Vocabulary} {k : UInt32} {more : Tape} {s s' : TokenStream}

/-- The token that a scan gives, where the end counts as one. -/
def orEof (line : UInt32) (r : Option Token) : Token := r.getD (eofToken line)

theorem attempt_consume (h : s.ahead = none) :
    (attempt (consume v) s).1 =
        (attempt (next? v) s.scanner).1.map (orEof (attempt (next? v) s.scanner).2.line) ∧
      (attempt (consume v) s).2.scanner = (attempt (next? v) s.scanner).2 := by
  simp only [attempt, consume, h, scan]
  rcases next? v s.scanner with ⟨_ | token, t⟩ | ⟨e, t⟩ <;> exact ⟨rfl, rfl⟩

/-- **A take from a stream in step** gives the same so many lines later. -/
theorem consume_follows (hs : s.ahead = none) (hs' : s'.ahead = none)
    (h : InStep k more s.scanner s'.scanner)
    (hmore : (attempt (consume v) s).2.scanner.cursor.tape ≠ [] ∨ more = []) :
    (attempt (consume v) s').1 = carry k (Token.shift k) (attempt (consume v) s).1 ∧
      InStep k more (attempt (consume v) s).2.scanner (attempt (consume v) s').2.scanner := by
  obtain ⟨hout, hscanner⟩ := attempt_consume (v := v) hs
  obtain ⟨hout', hscanner'⟩ := attempt_consume (v := v) hs'
  rw [hscanner] at hmore
  obtain ⟨hnext, hstep⟩ := (next?_follows v).agrees _ _ h hmore
  rw [hout, hout', hscanner, hscanner', hnext, hstep.line]
  refine ⟨?_, hstep⟩
  rcases (attempt (next? v) s.scanner).1 with e | _ | token <;> rfl

theorem ahead_of_takesAlone (h : s.ahead = none) (n : Nat) :
    (takesAlone v n s).2.ahead = none := by
  induction n generalizing s with
  | zero => exact h
  | succ n ih => exact ih (ahead_of_attempt_consume s)

theorem takesAlone_suffix (h : s.ahead = none) (n : Nat) :
    (takesAlone v n s).2.scanner.cursor.tape <:+ s.scanner.cursor.tape := by
  induction n generalizing s with
  | zero => exact List.suffix_refl _
  | succ n ih =>
    have hfollows : Follows 0 [] (next? v) (next? v) _ := next?_follows v
    have hfirst := hfollows.shortens s.scanner
    rw [← (attempt_consume h).2] at hfirst
    exact (ih (ahead_of_attempt_consume s)).trans hfirst

/-- **Takes from a stream in step** give the same so many lines later, unless the first stream comes
to the end of its tape. -/
theorem takesAlone_follows (n : Nat) (hs : s.ahead = none) (hs' : s'.ahead = none)
    (h : InStep k more s.scanner s'.scanner)
    (hmore : (takesAlone v n s).2.scanner.cursor.tape ≠ [] ∨ more = []) :
    (takesAlone v n s').1 = (takesAlone v n s).1.map (carry k (Token.shift k)) ∧
      InStep k more (takesAlone v n s).2.scanner (takesAlone v n s').2.scanner := by
  induction n generalizing s s' with
  | zero => exact ⟨rfl, h⟩
  | succ n ih =>
    have hnone := ahead_of_attempt_consume (v := v) s
    have hnone' := ahead_of_attempt_consume (v := v) s'
    have hleft := takesAlone_suffix (v := v) hnone n
    obtain ⟨hfirst, hstep⟩ := consume_follows hs hs' h (hmore.imp_left hleft.ne_nil)
    obtain ⟨hothers, hlast⟩ := ih hnone hnone' hstep hmore
    rw [takesAlone_succ, takesAlone_succ, hfirst, hothers]
    exact ⟨rfl, hlast⟩

theorem takesAlone_of_passes {tokens : List Token} {t : Scanner} (hs : s.ahead = none)
    (h : Passes v s.scanner tokens t) :
    (takesAlone v tokens.length s).1 = tokens.map .ok ∧
      (takesAlone v tokens.length s).2.scanner = t := by
  induction tokens generalizing s with
  | nil => exact ⟨rfl, h.eq_of_nil.symm⟩
  | cons token tokens ih =>
    have hsplit : Passes v s.scanner ([token] ++ tokens) t := h
    obtain ⟨u, hfirst, hothers⟩ := hsplit.split
    obtain ⟨w, hscan, hahead, rfl⟩ := scan_of_passes hfirst
    have hconsume : attempt (consume v) s = (.ok token, w) :=
      attempt_of_ok (by simp only [consume, hs, hscan])
    obtain ⟨hrest, hend⟩ := ih (hahead.trans hs) hothers
    rw [List.length_cons, takesAlone_succ, hconsume, hrest]
    exact ⟨rfl, hend⟩

end TokenStream

/-! ## The end of a line -/

namespace Scanner

open TokenStream

variable {v : Vocabulary} {line : UInt32} {cs front front' left : List Char} {found : List Origin}

/-- Where a text ends with a line feed, its tokens leave that to be read. -/
theorem Traced.terminated (hv : v.WithinLines) (h : Traced v line front cs found front' left)
    (hvisible : ∀ x ∈ found, x.token.kind ≠ .eof) (hcs : cs.getLast? = some '\n') :
    left.getLast? = some '\n' := by
  induction h with
  | refl => exact hcs
  | @lexeme _ blanks raw rest _ _ _ _ _ spelled _ _ ih =>
    obtain ⟨-, hvisible⟩ := List.forall_mem_cons.mp hvisible
    refine ih hvisible ?_
    rw [← List.append_assoc] at hcs
    by_cases hrest : rest = []
    · rw [hrest, List.append_nil, List.getLast?_append_of_ne_nil _ spelled.ne_nil] at hcs
      exact absurd (List.mem_of_getLast? hcs) (spelled.lineFeed_notMem hv)
    · rwa [List.getLast?_append_of_ne_nil _ hrest] at hcs
  | ended => exact absurd rfl (hvisible _ List.mem_cons_self)

/-- With nothing but blanks in front of a loss, the loss is reported. The lines are counted, and the
scanner is behind it. -/
theorem next?_of_lost {s : Scanner} {text : String} {rest : Tape}
    (hblank : ∀ c ∈ cs, Unicode.isBlank c = true)
    (h : s.cursor.tape = .ofCharacters cs ++ .lost text :: rest) :
    ∃ t, attempt (next? v) s = (.error (.unreadable text), t) ∧ t.cursor.tape = rest ∧
      t.line = lineBehind s.line cs := by
  have hfold := Cursor.fold_tape blankStep s.line s.cursor
  rw [h, Tape.fold_ofCharacters, foldFront_blankStep, List.takeWhile_eq_self_iff.mpr hblank,
    List.dropWhile_eq_nil_iff.mpr hblank] at hfold
  obtain ⟨hvalue, hrest⟩ := Prod.mk.inj hfold
  obtain ⟨hfault, htape⟩ := Prod.mk.inj hrest
  refine ⟨⟨(s.cursor.foldWhile blankStep s.line).cursor, _⟩, ?_, htape.symm, hvalue.symm⟩
  rw [next?, attempt_bind, attempt_skipBlanks, ← hfault]
  rfl

end Scanner

open Scanner TokenStream

/-- Where the tokens of a text have been passed there are but blanks, among them the line feed that
ends it. -/
theorem exists_passes_of_tokensOf {front : String} {found : List Token}
    (hfront : front = "" ∨ front.toList.getLast? = some '\n')
    (hfound : tokensOf .standard front = some found) :
    ∃ t blanks, Passes .standard (.ofSource (.ofString front)) found t ∧
      t.cursor.Holds blanks ∧ (∀ c ∈ blanks, Unicode.isBlank c = true) ∧
      lineBehind t.line blanks = lineBehind 1 front.toList ∧ (found = [] ∨ blanks ≠ []) := by
  obtain ⟨last, hupcoming⟩ := upcoming_of_tokensOf hfound
  have hvisible := (TokenStream.upcoming_ended .standard (.ofSource (.ofString front))).inside
  rw [hupcoming] at hvisible
  rw [← List.append_nil found] at hupcoming
  obtain ⟨t, hpasses, hend⟩ := Passes.of_upcoming hupcoming
  have hholds := Cursor.holds_ofSource front
  have hone : (Scanner.ofSource (.ofString front)).line = lineBehind 1 ([] : List Char) := rfl
  obtain ⟨origins, read, blanks, horigins, htraced, hleft, hlines⟩ :=
    hpasses.traced Vocabulary.withinLines_standard hholds hone
  refine ⟨t, blanks, hpasses, hleft, ?_, ?_, ?_⟩
  · cases partition_of_upcoming Spells.kind_ne_eof hleft hend with
    | nil hblank => exact hblank
  · have htext : read ++ blanks = front.toList := htraced.append_eq
    rw [hlines, ← lineBehind_append, htext]
  · rcases hfront with rfl | hfeed
    · cases found with
      | nil => exact .inl rfl
      | cons token others =>
        have htoken : token.kind ≠ .eof := hvisible token List.mem_cons_self
        exact absurd rfl (hpasses.ne_nil htoken hholds)
    · have horigin : ∀ x ∈ origins, x.token.kind ≠ .eof :=
        fun x hx => hvisible _ (horigins ▸ List.mem_map_of_mem hx)
      have hleftover := htraced.terminated Vocabulary.withinLines_standard horigin hfeed
      exact .inr fun hnil => by simp [hnil] at hleftover

/-- The tokens of a text that ends with a line feed are taken whatever follows, and lead behind all
but blanks. -/
theorem takesAlone_front {front : String} {found : List Token} {more : Tape} {s : TokenStream}
    (hfront : front = "" ∨ front.toList.getLast? = some '\n')
    (hfound : tokensOf .standard front = some found) (hs : s.ahead = none)
    (htape : s.scanner.cursor.tape = .ofCharacters front.toList ++ more)
    (hline : s.scanner.line = 1) :
    (takesAlone .standard found.length s).1 = found.map .ok ∧
      ∃ blanks, (∀ c ∈ blanks, Unicode.isBlank c = true) ∧
        (takesAlone .standard found.length s).2.scanner.cursor.tape =
          .ofCharacters blanks ++ more ∧
        lineBehind (takesAlone .standard found.length s).2.scanner.line blanks =
          lineBehind 1 front.toList := by
  obtain ⟨t, blanks, hpasses, hholds, hblank, hcount, hleft⟩ :=
    exists_passes_of_tokensOf hfront hfound
  have hfronttape : (Cursor.ofSource (.ofString front)).tape = .ofCharacters front.toList :=
    Cursor.tape_of_holds (Cursor.holds_ofSource front)
  have hstart : InStep 0 more (.ofSource (.ofString front)) s.scanner := by
    refine ⟨?_, hline⟩
    rw [htape, ← hfronttape]
    rfl
  have hsame : (takesAlone .standard found.length s).1 = found.map .ok ∧
      InStep 0 more t (takesAlone .standard found.length s).2.scanner := by
    rcases hleft with rfl | hne
    · exact ⟨rfl, hpasses.eq_of_nil ▸ hstart⟩
    · -- the text alone leaves blanks, so that the longer source is read in step
      let alone := TokenStream.ofSource (.ofString front)
      obtain ⟨htaken, hbehind⟩ := takesAlone_of_passes (rfl : alone.ahead = none) hpasses
      have hmore : t.cursor.tape ≠ [] := by
        rw [Cursor.tape_of_holds hholds]
        exact fun hnil => hne (List.map_eq_nil_iff.mp hnil)
      rw [← hbehind] at hmore ⊢
      obtain ⟨hout, hstep⟩ := takesAlone_follows _ rfl hs hstart (.inl hmore)
      have hcarry : carry 0 (Token.shift 0) ∘ Except.ok = Except.ok :=
        funext fun token => congrArg Except.ok token.shift_zero
      rw [hout, htaken, List.map_map, hcarry]
      exact ⟨rfl, hstep⟩
  obtain ⟨htakes, hstep⟩ := hsame
  refine ⟨htakes, blanks, hblank, ?_, ?_⟩
  · rw [hstep.tape, Cursor.tape_of_holds hholds]
  · rw [hstep.line, UInt32.add_zero, hcount]

/-- **A loss costs its own line.** Where the text in front of it is empty or ends with a line feed,
and is tokenized, takes give the tokens of that text, then one failure, and then what they give from
the rest of the source alone, so many lines later. -/
theorem takesAlone_of_lost {front : String} {found : List Token} {failure rest : Source}
    {text : String} (hfront : front = "" ∨ front.toList.getLast? = some '\n')
    (hfound : tokensOf .standard front = some found) (hlost : Lost failure rest text) (n : Nat) :
    let lines := UInt32.ofNat (front.toList.count '\n')
    (takesAlone .standard (found.length + (n + 1))
        (.ofSource (.ofString front ++ failure ++ rest))).1 =
      found.map .ok ++ .error (.unreadable text) ::
        (takesAlone .standard n (.ofSource rest)).1.map (carry lines (Token.shift lines)) := by
  intro lines
  have htape : (Source.ofString front ++ failure ++ rest).readings =
      .ofCharacters front.toList ++ .lost text :: rest.readings := by
    rw [List.append_assoc, Source.readings_append (Source.ends_ofString hfront), hlost.readings,
      Source.ofString_eq, Source.readings_ofCharacters]
  let whole := TokenStream.ofSource (.ofString front ++ failure ++ rest)
  obtain ⟨hfirst, blanks, hblank, hleft, hline⟩ :=
    takesAlone_front hfront hfound (rfl : whole.ahead = none) htape rfl
  -- the loss is next
  have hnone : (takesAlone .standard found.length whole).2.ahead = none :=
    ahead_of_takesAlone rfl _
  obtain ⟨t, hnext, hbehind, hlines⟩ := next?_of_lost (v := .standard) hblank hleft
  obtain ⟨hloss, hscanner⟩ := attempt_consume (v := .standard) hnone
  rw [hnext] at hloss hscanner
  dsimp only at hscanner
  -- and what is left is what a fresh stream starts with
  have hstep : InStep lines [] (TokenStream.ofSource rest).scanner t := by
    constructor
    · rw [hbehind, List.append_nil]
      rfl
    · rw [hlines, hline]
      rfl
  rw [← hscanner] at hstep
  obtain ⟨hothers, -⟩ :=
    takesAlone_follows n rfl (ahead_of_attempt_consume _) hstep (.inr rfl)
  rw [takesAlone_add, takesAlone_succ, hfirst, hloss, hothers]
  rfl

theorem takesAlone_of_failed_read :
    (takesAlone .standard 4 (.ofSource (.ofString "a;\n" ++
        (Source.ofBytes [98] ++ [.fault "device lost"]) ++ .ofString "c"))).1 =
      [.ok ⟨.identifier, "a", 1⟩, .ok ⟨.semicolon, ";", 1⟩, .error (.unreadable "device lost"),
        .ok ⟨.identifier, "c", 2⟩] := by
  have hfound : tokensOf .standard "a;\n" =
      some [⟨.identifier, "a", 1⟩, ⟨.semicolon, ";", 1⟩] := by decide +kernel
  have hlost : Lost (Source.ofBytes [98] ++ [.fault "device lost"]) (.ofString "c")
      "device lost" := .fault (by decide)
  have hrest : (takesAlone .standard 1 (.ofSource (.ofString "c"))).1 =
      [.ok ⟨.identifier, "c", 1⟩] := by decide +kernel
  have hlines : "a;\n".toList.count '\n' = 1 := by decide
  have hrun := takesAlone_of_lost (.inr (by decide)) hfound hlost 1
  rw [hrest, hlines] at hrun
  exact hrun

end ExprLang
