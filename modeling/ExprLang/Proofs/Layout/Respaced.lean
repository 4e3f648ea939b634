import ExprLang.Proofs.Layout.Lexed
import ExprLang.Proofs.Parallel.Programs

/-!
# Independence of the layout

A program means the same however its lexemes are spread over lines, and whichever blanks stand
between them.

* `Foresees`: a scanner in front of given lexemes.
* `layoutTwin`: parses of texts with the same lexemes, side by side.
* **`respaced_of_tokenize`**: what the tokens of a text hold, with any blanks between them, has the
  same tokens and is parsed alike.
-/

namespace ExprLang

open Scanner

/-! ## Scanners in front of the same lexemes -/

/-- What the scanner has yet to find are tokens with these lexemes. -/
def Foresees (v : Vocabulary) (s : Scanner) (lexemes : List (Kind × String)) : Prop :=
  ∃ cs tokens last, s.cursor.Holds cs ∧ s.upcoming v = (tokens, .ok last) ∧
    tokens.map Token.lexeme = lexemes

theorem Scanner.upcoming_eq (v : Vocabulary) (s : Scanner) :
    s.upcoming v =
      match next? v s with
      | .error e _ => ([], .error e)
      | .ok none t => ([], .ok (TokenStream.eofToken t.line))
      | .ok (some token) t => Upcoming.cons token (t.upcoming v) := by
  rw [Scanner.upcoming]
  split <;> simp_all

theorem foresees_end {v : Vocabulary} {s : Scanner} (h : s.cursor.Holds []) : Foresees v s [] := by
  obtain ⟨tokens, last, hu, hl⟩ := (Lexes.nil (v := v) (List.forall_mem_nil _)).upcoming h
  exact ⟨[], tokens, last, h, hu, hl⟩

namespace Foresees

variable {s t : Scanner} {lexemes : List (Kind × String)}

theorem next? (h : Foresees .standard s lexemes) :
    (lexemes = [] ∧ ∃ t, next? .standard s = .ok none t ∧ Foresees .standard t []) ∨
      ∃ token t rest, lexemes = token.lexeme :: rest ∧ next? .standard s = .ok (some token) t ∧
        Foresees .standard t rest := by
  obtain ⟨cs, tokens, last, hs, hu, rfl⟩ := h
  obtain ⟨blanks, others, -, -, hn⟩ := next?_of_holds (v := .standard) hs
  rw [Scanner.upcoming_eq] at hu
  rcases hr : Scanner.next? .standard s with ⟨_ | token, t⟩ | ⟨e, t⟩ <;> rw [hr] at hn hu
  · obtain ⟨-, ht, -⟩ := hn
    cases hu
    exact .inl ⟨rfl, t, rfl, foresees_end ht⟩
  · obtain ⟨rest, ⟨raw, -, hspells, -⟩, ht, -⟩ := hn
    simp only [Upcoming.cons_of_ne hspells.kind_ne_eof] at hu
    obtain ⟨rfl, hlast⟩ := Prod.mk.inj hu
    exact .inr ⟨token, t, _, rfl, rfl, rest, _, last, ht, Prod.ext rfl hlast, rfl⟩
  · cases hu

theorem parallel : Parallel
    (fun s t => ∃ lexemes, Foresees .standard s lexemes ∧ Foresees .standard t lexemes)
    (Failure.Alike fun _ _ => True) (fun _ => False) (Scanner.next? .standard)
    (Scanner.next? .standard) (Option.Rel (Token.Alike fun _ _ => True)) := by
  rintro s t ⟨lexemes, hs, ht⟩
  rcases hs.next? with ⟨rfl, s', hs, hs'⟩ | ⟨token, s', rest, rfl, hs, hs'⟩
  · rcases ht.next? with ⟨-, t', ht, ht'⟩ | ⟨_, _, _, hl, -, -⟩
    · rw [hs, ht]
      exact .ok .none ⟨[], hs', ht'⟩
    · cases hl
  · rcases ht.next? with ⟨hl, -⟩ | ⟨other, t', rest', hl, ht, ht'⟩
    · cases hl
    · obtain ⟨hlexeme, rfl⟩ := List.cons.inj hl
      obtain ⟨hkind, hvalue⟩ := Prod.mk.inj hlexeme
      rw [hs, ht]
      exact .ok (.some ⟨hkind, hvalue, trivial⟩) ⟨rest, hs', ht'⟩

end Foresees

namespace Grammar

/-! ## Parses of the same lexemes -/

/-- Parses of texts with the same lexemes. Any two lines may correspond. -/
def layoutTwin (typing : TypingTable) (maxDepth : Nat) :
    Twin (standard .standard typing maxDepth) (standard .standard typing maxDepth) where
  lines _ _ := True
  scanners s t := ∃ lexemes, Foresees .standard s lexemes ∧ Foresees .standard t lexemes
  tolerated _ := False
  vocabulary := rfl
  declarators := rfl
  operands := rfl
  limit := .inl rfl
  next := Foresees.parallel
  line _ _ _ := trivial

/-- Parses with the same units, or with the same failure, lines aside. -/
inductive SameParse : Except Failure (List Tree) → Except Failure (List Tree) → Prop
  | units {units units' : List Tree} (same : Tree.sameAll units units' = true) :
      SameParse (.ok units) (.ok units')
  | failure {e e' : Failure} (same : e.Alike (fun _ _ => True) e') :
      SameParse (.error e) (.error e')

theorem sameParse_of_lexemes (typing : TypingTable) (maxDepth : Nat) {source source' : Source}
    {lexemes : List (Kind × String)} (h : Foresees .standard (.ofSource source) lexemes)
    (h' : Foresees .standard (.ofSource source') lexemes) :
    SameParse ((standard .standard typing maxDepth).parse source)
      ((standard .standard typing maxDepth).parse source') := by
  have hm := (layoutTwin typing maxDepth).parseRun rfl (s := source) (t := source')
    ⟨lexemes, h, h'⟩
  unfold parse
  revert hm
  generalize (standard .standard typing maxDepth).parseRun source = r
  generalize (standard .standard typing maxDepth).parseRun source' = r'
  intro hm
  cases hm with
  | ok units _ => exact .units units.same
  | failed same => exact .failure same
  | cut early => exact early.elim

end Grammar

open TokenStream

theorem foresees_of_tokenize {v : Vocabulary} {text : String} {tokens : List Token} {last : Token}
    {stream : TokenStream}
    (h : tokenize v (.ofSource (.ofString text)) = .ok (tokens ++ [last]) stream) :
    Foresees v (.ofSource (.ofString text)) (tokens.map Token.lexeme) := by
  obtain ⟨last', -, hu, -⟩ := upcoming_of_tokenize h
  rw [List.dropLast_concat, upcoming_of_none rfl] at hu
  exact ⟨_, tokens, last', Cursor.holds_ofSource text, hu, rfl⟩

/-- The lexemes of the standard language, whatever text they are read from. -/
theorem Partition.lexeme {line : UInt32} {cs : List Char} {tokens : List Token} {last : Token}
    (h : Partition .standard line cs tokens last) :
    (∀ token ∈ tokens, token.kind ≠ .eof ∧ token.kind ≠ .dot) ∧
      last.lexeme = (.eof, "EOF") := by
  induction h with
  | nil => exact ⟨List.forall_mem_nil _, rfl⟩
  | cons _ first _ _ ih =>
    exact ⟨List.forall_mem_cons.mpr ⟨⟨first.kind_ne_eof, first.kind_ne_dot⟩, ih.1⟩, ih.2⟩

/-- **The layout of a text does not matter.** With other blanks around its tokens it has the same
tokens on other lines, and is parsed alike. -/
theorem respaced_of_tokenize {text : String} {tokens : List Token} {stream : TokenStream}
    (h : tokenize .standard (.ofSource (.ofString text)) = .ok tokens stream)
    {front : List Char} {pieces : List (String × List Char)}
    (hvalues : pieces.map Prod.fst = (tokens.filter (·.kind ≠ .eof)).map Token.value)
    (hfront : ∀ c ∈ front, Unicode.isBlank c = true)
    (hgaps : ∀ piece ∈ pieces, ∀ c ∈ piece.2, Unicode.isBlank c = true)
    (hbetween : ∀ piece ∈ pieces.dropLast, piece.2 ≠ []) :
    ∃ tokens' stream',
      tokenize .standard (.ofSource (.ofString (.ofList (front ++ joined pieces)))) =
        .ok tokens' stream' ∧
      tokens'.map Token.lexeme = tokens.map Token.lexeme ∧
      ∀ typing maxDepth, Grammar.SameParse
        ((Grammar.standard .standard typing maxDepth).parse (.ofString text))
        ((Grammar.standard .standard typing maxDepth).parse
          (.ofString (.ofList (front ++ joined pieces)))) := by
  obtain ⟨found, last, rfl, hlast, hfound, hp⟩ := partition_of_tokenize h
  have hfilter : (found ++ [last]).filter (·.kind ≠ .eof) = found := by
    rw [List.filter_append, List.filter_eq_self.mpr (by simpa using hfound)]
    simp [hlast]
  rw [hfilter] at hvalues
  have hlexeme : ∀ token ∈ found, Lexeme .standard token.kind token.value := by
    obtain ⟨_, -, hu, -⟩ := upcoming_of_tokenize h
    rw [List.dropLast_concat, upcoming_of_none rfl] at hu
    have := lexeme_of_upcoming (v := .standard) (TokenStream.ofSource (.ofString text)).scanner
    rwa [hu] at this
  obtain ⟨hkinds, hend⟩ := hp.lexeme
  have hlexes := lexes_joined hvalues (fun token ht => ⟨hlexeme token ht, hkinds token ht⟩) hfront
    hgaps hbetween
  rw [← String.toList_ofList (l := front ++ joined pieces)] at hlexes
  obtain ⟨found', last', stream', h', hsame⟩ := Grammar.tokenize_ofString hlexes
  obtain ⟨found'', last'', heq, -, -, hp'⟩ := partition_of_tokenize h'
  obtain ⟨rfl, hlasts⟩ := List.append_inj' heq rfl
  obtain rfl := List.singleton_inj.mp hlasts
  refine ⟨_, stream', h', ?_, fun typing maxDepth => ?_⟩
  · rw [List.map_append, List.map_append, hsame, List.map_singleton, List.map_singleton, hend,
      hp'.lexeme.2]
  · exact Grammar.sameParse_of_lexemes typing maxDepth (foresees_of_tokenize h)
      (hsame ▸ foresees_of_tokenize h')

/-- The lexemes of `var a=1.;a=a**-.5e-3;`, spread over lines. -/
def spreadOut : List (String × List Char) :=
  [("var", [' ']), ("a", ['\n']), ("=", [' ']), ("1.0", ['\t', ' ']), (";", ['\n', '\n']),
    ("a", [' ']), ("=", [' ']), ("a", [' ']), ("**", ['\n']), ("-", [' ']), ("0.5e-3", [' ']),
    (";", [])]

theorem respaced_spreadOut : ∃ tokens stream,
    tokenize .standard (.ofSource (.ofString "var a=1.;a=a**-.5e-3;")) = .ok tokens stream ∧
      spreadOut.map Prod.fst = (tokens.filter (·.kind ≠ .eof)).map Token.value ∧
      (∀ c ∈ ['\n'], Unicode.isBlank c = true) ∧
      (∀ piece ∈ spreadOut, ∀ c ∈ piece.2, Unicode.isBlank c = true) ∧
      (∀ piece ∈ spreadOut.dropLast, piece.2 ≠ []) ∧
      ∃ tokens' stream',
        tokenize .standard (.ofSource (.ofString (.ofList (['\n'] ++ joined spreadOut)))) =
          .ok tokens' stream' ∧
        tokens'.map Token.lexeme = tokens.map Token.lexeme ∧
        ∀ typing maxDepth, Grammar.SameParse
          ((Grammar.standard .standard typing maxDepth).parse (.ofString "var a=1.;a=a**-.5e-3;"))
          ((Grammar.standard .standard typing maxDepth).parse
            (.ofString (.ofList (['\n'] ++ joined spreadOut)))) := by
  obtain ⟨found, hfound, hvalues⟩ := Option.map_eq_some_iff.mp <|
    show (tokensOf .standard "var a=1.;a=a**-.5e-3;").map (List.map Token.value) =
      some (spreadOut.map Prod.fst) by decide +kernel
  obtain ⟨tokens, stream, h, rfl⟩ := exists_tokens hfound
  have hfront : ∀ c ∈ ['\n'], Unicode.isBlank c = true := List.forall_mem_singleton.mpr rfl
  have hall : spreadOut.all (·.2.all Unicode.isBlank) = true := by decide
  have hgaps : ∀ piece ∈ spreadOut, ∀ c ∈ piece.2, Unicode.isBlank c = true :=
    fun piece hp => List.all_eq_true.mp (List.all_eq_true.mp hall piece hp)
  have hbetween : ∀ piece ∈ spreadOut.dropLast, piece.2 ≠ [] := by decide
  exact ⟨tokens, stream, h, hvalues.symm, hfront, hgaps, hbetween,
    respaced_of_tokenize h hvalues.symm hfront hgaps hbetween⟩

end ExprLang
