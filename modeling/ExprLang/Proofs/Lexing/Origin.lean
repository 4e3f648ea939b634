import ExprLang.Proofs.Layout.Lexed
import ExprLang.Proofs.Lexing.AnySource
import ExprLang.Proofs.Nesting.Limit
import ExprLang.Proofs.Stream.Passes

/-!
# Where tokens come from

Every token that is found in a text has a lexeme there, and its line is counted off by the line
feeds in front of that lexeme.

* `Vocabulary.WithinLines`, `Spells.lineFeed_notMem`: no lexeme goes on in another line.
* `Origin`, `Traced`: tokens with their lexemes and all that stands in front of these.
* **`Passes.traced_found`**: the tokens that a scanner passes are traced to the characters it reads,
  and found there.
* `exists_offending`: an error is blamed on the line of the first character that is not blank.
-/

namespace ExprLang

/-- No operator lexeme contains a line feed. -/
def Vocabulary.WithinLines (v : Vocabulary) : Prop :=
  ∀ lexeme op, v.lookup lexeme = some (.operator op) → '\n' ∉ lexeme.toList

theorem Vocabulary.withinLines_standard : standard.WithinLines := by
  have hall : ∀ e ∈ standard.lexemes.entries, isOperator e.2 = true → '\n' ∉ e.1.toList := by
    decide
  exact fun lexeme op h => hall _ (Table.mem_of_get? h) rfl

theorem Vocabulary.WithinLines.notMem {v : Vocabulary} (hv : v.WithinLines) {lexeme : String}
    {kind : Kind} (h : v.operatorKind? lexeme = some kind) : '\n' ∉ lexeme.toList := by
  unfold operatorKind? at h
  split at h
  · next hl => exact hv _ _ hl
  · cases h

/-- A token, the characters of its lexeme, and those of the text in front of them. An `eof` has no
characters. -/
structure Origin where
  front : List Char
  raw : List Char
  token : Token

namespace Scanner

open Cursor Vocabulary

variable {v : Vocabulary} {s t : Scanner} {cs : List Char} {line : UInt32}

/-! ## Line feeds -/

/-- What a number consists of besides digits. -/
def numberMarks : List Char := ['.', 'e', '+', '-']

theorem IsNumeral.isDigit_or_mem {cs : List Char} (h : IsNumeral cs) :
    ∀ c ∈ cs, c.isDigit = true ∨ c ∈ numberMarks := by
  cases h with
  | whole _ decimal => exact fun c hc => .inl (decimal c hc)
  | pointed decimal decimal' =>
    refine List.forall_mem_append.mpr ⟨fun c hc => .inl (decimal c hc), ?_⟩
    exact List.forall_mem_cons.mpr ⟨.inr (by decide), fun c hc => .inl (decimal' c hc)⟩

theorem IsNumber.isDigit_or_mem {cs : List Char} (h : IsNumber cs) :
    ∀ c ∈ cs, c.isDigit = true ∨ c ∈ numberMarks := by
  have hsigns : ∀ sign ∈ signCharacters, ∀ c ∈ sign, c ∈ numberMarks := by
    simp [signCharacters, numberMarks]
  cases h with
  | plain mantissa => exact mantissa.isDigit_or_mem
  | scientific mantissa signed power =>
    refine List.forall_mem_append.mpr ⟨mantissa.isDigit_or_mem, ?_⟩
    refine List.forall_mem_cons.mpr ⟨.inr (by decide), ?_⟩
    exact List.forall_mem_append.mpr ⟨fun c hc => .inr (hsigns _ signed c hc),
      power.isDigit_or_mem⟩

theorem Spells.lineFeed_notMem (hv : v.WithinLines) {raw rest : List Char} {kind : Kind}
    {value : String} (h : Spells v raw rest kind value) : '\n' ∉ raw := by
  have hblank : Unicode.isBlank '\n' = true := by decide
  have hword : ∀ c, continuesWord c = true → c ≠ '\n' := by
    rintro _ hc rfl
    rw [not_isBlank_of_continuesWord hc] at hblank
    cases hblank
  cases h with
  | word starts continues =>
    exact fun hmem => (List.mem_cons.mp hmem).elim
      (fun he => hword _ (continuesWord_of_startsWord starts) he.symm)
      (fun hmem => hword _ (continues _ hmem) rfl)
  | number written =>
    exact fun hmem => (written.isDigit_or_mem _ hmem).elim (by decide) (by decide)
  | operator _ _ registered _ => simpa using hv.notMem registered

/-! ## Tracing tokens to a text -/

/-- `Traced v line front cs found front' cs'`: in a text that begins on this line, with `front` read
and `cs` in front of the scanner, the tokens found come from these places. Behind them `front'` is
read, and `cs'` is left. -/
inductive Traced (v : Vocabulary) (line : UInt32) :
    List Char → List Char → List Origin → List Char → List Char → Prop
  | refl {front cs : List Char} : Traced v line front cs [] front cs
  | lexeme {front blanks raw rest front' cs' : List Char} {token : Token} {found : List Origin}
      (blank : ∀ c ∈ blanks, Unicode.isBlank c = true)
      (spelled : Spells v raw rest token.kind token.value)
      (placed : token.line = lineBehind line (front ++ blanks))
      (others : Traced v line (front ++ blanks ++ raw) rest found front' cs') :
      Traced v line front (blanks ++ (raw ++ rest)) (⟨front ++ blanks, raw, token⟩ :: found) front'
        cs'
  | ended {front blanks front' cs' : List Char} {found : List Origin}
      (blank : ∀ c ∈ blanks, Unicode.isBlank c = true)
      (others : Traced v line (front ++ blanks) [] found front' cs') :
      Traced v line front blanks
        (⟨front ++ blanks, [], TokenStream.eofToken (lineBehind line (front ++ blanks))⟩ :: found)
        front' cs'

variable {front front' cs' : List Char} {found : List Origin}

theorem Traced.append_eq (h : Traced v line front cs found front' cs') :
    front' ++ cs' = front ++ cs := by
  induction h with
  | refl => rfl
  | lexeme _ _ _ _ ih => rw [ih, List.append_assoc, List.append_assoc]
  | ended _ _ ih => rw [ih, List.append_nil]

/-- A token stands where its lexeme begins, and its line is counted off by what is in front. -/
theorem Traced.placed (h : Traced v line front cs found front' cs') :
    ∀ x ∈ found, x.token.line = lineBehind line x.front ∧
      ∃ rest, x.front ++ x.raw ++ rest = front ++ cs ∧
        (x.raw = [] ∧ rest = [] ∧ x.token = TokenStream.eofToken x.token.line ∨
          Spells v x.raw rest x.token.kind x.token.value) := by
  induction h with
  | refl => exact List.forall_mem_nil _
  | lexeme _ spelled placed others ih =>
    refine List.forall_mem_cons.mpr ⟨⟨placed, _, ?_, .inr spelled⟩, fun x hx => ?_⟩
    · simp only [List.append_assoc]
    · obtain ⟨hline, rest, heq, hraw⟩ := ih x hx
      refine ⟨hline, rest, ?_, hraw⟩
      rw [heq, List.append_assoc, List.append_assoc]
  | ended _ others ih =>
    refine List.forall_mem_cons.mpr ⟨⟨rfl, [], ?_, .inl ⟨rfl, rfl, rfl⟩⟩, fun x hx => ?_⟩
    · rw [List.append_nil, List.append_nil]
    · obtain ⟨hline, rest, heq, hraw⟩ := ih x hx
      exact ⟨hline, rest, heq.trans (List.append_nil _), hraw⟩

/-- In front of the characters the rules for lexemes find the token, and leave `rest`. -/
def Finds (v : Vocabulary) (cs : List Char) (token : Token) (rest : List Char) : Prop :=
  ∃ c s t, s.cursor.Holds cs ∧ lexeme v c s = .ok token t ∧ t.cursor.Holds rest

theorem Gives.finds {E : Failure → Prop} {c : Char} {P : Token → List Char → Prop}
    (h : Gives E (lexeme v c) line cs P) :
    Gives E (lexeme v c) line cs fun token rest => P token rest ∧ Finds v cs token rest := by
  intro s hs hl
  have h := h s hs hl
  rcases hr : lexeme v c s with ⟨token, t⟩ | ⟨e, t⟩ <;> rw [hr] at h
  · obtain ⟨rest, ht, htl, hp⟩ := h
    exact ⟨rest, ht, htl, hp, c, s, t, hs, hr, ht⟩
  · exact h

/-- **The tokens that a scanner passes** are traced to the characters that it reads, and each of
them is found where its lexeme begins. -/
theorem Passes.traced_found (hv : v.WithinLines) {tokens : List Token} (h : Passes v s tokens t)
    (hs : s.cursor.Holds cs) (hline : s.line = lineBehind line front) :
    ∃ found front' cs', tokens = found.map Origin.token ∧ Traced v line front cs found front' cs' ∧
      (∀ x ∈ found, x.raw ≠ [] → ∃ behind, x.front ++ (x.raw ++ behind) = front ++ cs ∧
        Finds v (x.raw ++ behind) x.token behind) ∧
      t.cursor.Holds cs' ∧ t.line = lineBehind line front' := by
  induction h generalizing front cs with
  | refl => exact ⟨[], front, cs, rfl, .refl, List.forall_mem_nil _, hs, hline⟩
  | token step _ ih =>
    obtain ⟨blanks, others, rfl, hblank, -, hnext⟩ := next?_behind_blanks v hs
    have hnext := hnext (fun _ => True) (fun r rest => ∀ token ∈ r,
      Found v _ others token rest ∧ Finds v others token rest) nofun
      fun c _ => (Gives.finds (gives_lexeme (fun _ => trivial) c)).mono fun _ _ hq _ hr =>
        Option.some.inj hr ▸ hq
    rw [step, hline, ← lineBehind_append] at hnext
    obtain ⟨rest, ht, htline, hfound⟩ := hnext
    obtain ⟨⟨raw, rfl, hspells, hplaced⟩, hfinds⟩ := hfound _ rfl
    have hraw : lineBehind line (front ++ blanks ++ raw) = lineBehind line (front ++ blanks) :=
      (lineBehind_append ..).trans (lineBehind_of_notMem (hspells.lineFeed_notMem hv))
    rw [← hraw] at htline
    obtain ⟨found, front', cs', rfl, htraced, hothers, hu, huline⟩ := ih ht htline
    refine ⟨_, front', cs', rfl, .lexeme hblank hspells hplaced htraced, ?_, hu, huline⟩
    refine List.forall_mem_cons.mpr ⟨fun _ => ⟨rest, ?_, hfinds⟩, fun x hx hne => ?_⟩
    · simp only [List.append_assoc]
    · obtain ⟨behind, heq, hfinds⟩ := hothers x hx hne
      exact ⟨behind, heq.trans (by simp only [List.append_assoc]), hfinds⟩
  | @ended s t _ _ step _ ih =>
    obtain ⟨blanks, others, rfl, hblank, h⟩ := next?_of_holds (v := v) hs
    rw [step, hline, ← lineBehind_append] at h
    obtain ⟨rfl, ht, htline⟩ := h
    obtain ⟨found, front', cs', rfl, htraced, hfinds, hu, huline⟩ := ih ht htline
    rw [List.append_nil, htline]
    refine ⟨_, front', cs', rfl, .ended hblank htraced, ?_, hu, huline⟩
    refine List.forall_mem_cons.mpr ⟨fun hne => absurd rfl hne, fun x hx hne => ?_⟩
    obtain ⟨behind, heq, hfinds⟩ := hfinds x hx hne
    exact ⟨behind, heq.trans (List.append_nil _), hfinds⟩

theorem Passes.traced (hv : v.WithinLines) {tokens : List Token} (h : Passes v s tokens t)
    (hs : s.cursor.Holds cs) (hline : s.line = lineBehind line front) :
    ∃ found front' cs', tokens = found.map Origin.token ∧ Traced v line front cs found front' cs' ∧
      t.cursor.Holds cs' ∧ t.line = lineBehind line front' := by
  obtain ⟨found, front', cs', htokens, htraced, -, ht⟩ := h.traced_found hv hs hline
  exact ⟨found, front', cs', htokens, htraced, ht⟩

/-- The lines that a scanner passes are the line feeds that it reads. -/
theorem Passes.count_lineFeeds (hv : v.WithinLines) {tokens : List Token}
    (h : Passes v s tokens t) (hs : s.cursor.Holds cs) :
    ∃ rest, t.cursor.Holds rest ∧ lineBehind t.line rest = lineBehind s.line cs := by
  have hstart := (lineBehind_nil s.line).symm
  obtain ⟨_, read, rest, -, htraced, ht, hline⟩ := h.traced hv hs hstart
  refine ⟨rest, ht, ?_⟩
  have htext : read ++ rest = cs := htraced.append_eq
  rw [hline, ← htext, lineBehind_append]

/-! ## Errors -/

/-- **An error is blamed on the line of the first character that is not blank.** With that character
begins what is no lexeme. -/
theorem exists_offending {e : Failure} (hs : s.cursor.Holds cs)
    (h : next? v s = .error e t) :
    ∃ blanks c others cause, cs = blanks ++ c :: others ∧
      (∀ c ∈ blanks, Unicode.isBlank c = true) ∧ Unicode.isBlank c = false ∧
        cause.category = .lexical ∧ e = .refused ⟨cause, lineBehind s.line blanks⟩ := by
  have hlexical := next?_onLine v s
  rw [h] at hlexical
  obtain ⟨blanks, others, rfl, hblank, hstops, hnext⟩ := next?_behind_blanks v hs
  have hfails := hnext (fun e => others ≠ [] ∧ ∃ cause, e = .refused ⟨cause, _⟩) (fun _ _ => True)
    (fun _ => trivial) fun c hc =>
      have hne : others ≠ [] := List.ne_nil_of_mem (List.mem_of_head? hc)
      (gives_lexeme (fun cause => ⟨hne, cause, rfl⟩) c).mono fun _ _ _ => trivial
  rw [h] at hfails
  obtain ⟨hne, cause, rfl⟩ := hfails
  obtain ⟨c, others, rfl⟩ := List.exists_cons_of_ne_nil hne
  exact ⟨blanks, c, others, cause, rfl, hblank, hstops c rfl, hlexical _ rfl, rfl⟩

end Scanner

open Scanner

/-- **What is taken from a text or kept ahead** is traced to the text, and found where its lexeme
begins. -/
theorem TokenStream.Takes.traced_found {v : Vocabulary} (hv : v.WithinLines) {text : String}
    {tokens : List Token} {stream : TokenStream}
    (h : Takes v (.ofSource (.ofString text)) tokens stream) :
    ∃ found front rest, tokens ++ stream.ahead.toList = found.map Origin.token ∧
      Traced v 1 [] text.toList found front rest ∧
      (∀ x ∈ found, x.raw ≠ [] → ∃ behind, x.front ++ (x.raw ++ behind) = text.toList ∧
        Finds v (x.raw ++ behind) x.token behind) ∧
      stream.scanner.cursor.Holds rest ∧ stream.scanner.line = lineBehind 1 front := by
  obtain ⟨passed, hp, heq⟩ := h.passes
  have hstart : (TokenStream.ofSource (.ofString text)).scanner.line =
      lineBehind 1 ([] : List Char) := rfl
  obtain ⟨found, front, rest, rfl, htraced, hfinds, hrest, hline⟩ :=
    hp.traced_found hv (Cursor.holds_ofSource text) hstart
  exact ⟨found, front, rest, heq.symm, htraced, hfinds, hrest, hline⟩

theorem TokenStream.Takes.traced {v : Vocabulary} (hv : v.WithinLines) {text : String}
    {tokens : List Token} {stream : TokenStream}
    (h : Takes v (.ofSource (.ofString text)) tokens stream) :
    ∃ found front rest, tokens ++ stream.ahead.toList = found.map Origin.token ∧
      Traced v 1 [] text.toList found front rest ∧ stream.scanner.cursor.Holds rest ∧
        stream.scanner.line = lineBehind 1 front := by
  obtain ⟨found, front, rest, heq, htraced, -, hrest⟩ := h.traced_found hv
  exact ⟨found, front, rest, heq, htraced, hrest⟩

end ExprLang
