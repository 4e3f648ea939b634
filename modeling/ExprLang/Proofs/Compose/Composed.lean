import ExprLang.Proofs.Compose.Heedless
import ExprLang.Proofs.Compose.Rounds
import ExprLang.Proofs.Parallel.Limits

/-!
# Programs compose

A text behind an accepted one is parsed as it is by itself, but for the global symbols that it finds
declared and for the lines that it stands on.

* `ReadsLater`, `laterTwin`: the parses of one text on different lines, side by side.
* `StandsLater.program`: such programs, with blanks in front of the later one.
* **`parseRun_append`**: the parse of two texts, one behind the other.
-/

namespace ExprLang.Grammar

variable {g : Grammar} {s s' t : ParseState} {n : UInt32} {blanks cs : List Char}

/-! ## The same text on later lines -/

/-- The second scanner is in front of the same text as the first, `n` lines later. -/
def ReadsLater (n : UInt32) (s s' : Scanner) : Prop :=
  ∃ cs, s.cursor.Holds cs ∧ Scanner.Beyond n [] cs s s'

theorem ReadsLater.next (v : Vocabulary) :
    Parallel (ReadsLater n) (Failure.Alike (Later n)) (fun _ => False) (Scanner.next? v)
      (Scanner.next? v) (Option.Rel (Token.Alike (Later n))) := by
  rintro s s' ⟨cs, hs, hbeyond⟩
  have h := Scanner.next?_steady (v := v) hs (List.forall_mem_nil _) hbeyond.holds
    (by rw [lineBehind_nil, hbeyond.line])
  rcases hr : Scanner.next? v s with ⟨r, t⟩ | ⟨e, t⟩ <;> rw [hr] at h
  · obtain ⟨rest, -, ht, hfound⟩ := h
    obtain ⟨t', ht', hbeyond'⟩ := hfound (.inr rfl)
    rw [ht']
    exact .ok (Token.rel_shift r) ⟨rest, ht, hbeyond'⟩
  · obtain ⟨t', ht'⟩ := h rfl
    rw [ht']
    exact .failed (Failure.alike_later_iff.mpr rfl)

/-- The parses of one text, and of the same text `n` lines later. -/
def laterTwin (g : Grammar) (n : UInt32) : Twin g g :=
  selfTwin g (Later n) (ReadsLater n) (ReadsLater.next g.vocabulary) fun _ _ ⟨_, _, hbeyond⟩ =>
    hbeyond.line

/-- The second state stands in front of blanks and then of the same text, `n` lines later. No token
has been seen. -/
structure StandsLater (n : UInt32) (blanks cs : List Char) (s s' : ParseState) : Prop where
  holds : s.tokens.scanner.cursor.Holds cs
  blank : ∀ c ∈ blanks, Unicode.isBlank c = true
  holds' : s'.tokens.scanner.cursor.Holds (blanks ++ cs)
  line : lineBehind s'.tokens.scanner.line blanks = s.tokens.scanner.line + n
  ahead : s.tokens.ahead = none
  ahead' : s'.tokens.ahead = none
  scopes : s.scopes = s'.scopes

theorem StandsLater.lookahead (h : StandsLater n blanks cs s s') :
    Matching (fun t t' => (laterTwin g n).Streams t.tokens t'.tokens ∧ t.scopes = t'.scopes)
      (Failure.Alike (Later n)) (fun _ => False) (Token.Alike (Later n)) (g.lookahead s)
      (g.lookahead s') := by
  have hnext := Scanner.next?_steady (v := g.vocabulary) h.holds h.blank
    (by rw [List.append_nil]; exact h.holds') h.line
  unfold Grammar.lookahead ofTokens TokenStream.lookahead TokenStream.scan
  rw [h.ahead, h.ahead']
  rcases hr : Scanner.next? g.vocabulary s.tokens.scanner with ⟨r, t⟩ | ⟨e, t⟩ <;> rw [hr] at hnext
  · obtain ⟨rest, -, ht, hfound⟩ := hnext
    obtain ⟨t', ht', hbeyond⟩ := hfound (.inr rfl)
    rw [ht']
    cases r with
    | none =>
      have hlast : (TokenStream.eofToken t.line).Alike (Later n) (TokenStream.eofToken t'.line) :=
        ⟨rfl, rfl, hbeyond.line⟩
      exact .ok hlast ⟨⟨⟨rest, ht, hbeyond⟩, .some hlast⟩, h.scopes⟩
    | some token =>
      have hsame : token.Alike (Later n) (token.shift n) := Token.alike_later_iff.mpr rfl
      exact .ok hsame ⟨⟨⟨rest, ht, hbeyond⟩, .some hsame⟩, h.scopes⟩
  · obtain ⟨t', ht'⟩ := hnext rfl
    rw [ht']
    exact .failed (Failure.alike_later_iff.mpr rfl)

/-- A program starts with a look, and looking twice is looking once. -/
theorem program_of_lookahead {token : Token} (h : g.lookahead s = .ok token t) :
    g.program s = g.program t := by
  have hround : g.programStep s = g.programStep t := by
    unfold programStep currentKind
    simp only [bind, EStateM.bind, Functor.map, EStateM.map, h,
      lookahead_of_ahead (ahead_of_lookahead g h)]
  rw [program_eq, program_eq, collect, Parallel.collectFrom_eq, Parallel.collectFrom_eq, hround]

theorem looks_program (g : Grammar) : Looks g g.program := .bind (.collect (.bind .currentKind _)) _

/-- `Follows n front r r'`: the second outcome is the first, `n` lines later and with other units
in front. -/
def Follows (n : UInt32) (front : List Tree)
    (r r' : EStateM.Result Failure ParseState (List Tree)) : Prop :=
  match r with
  | .ok trees t => ∃ t', r' = .ok (front ++ trees.map (Tree.shift n)) t' ∧ t'.scopes = t.scopes
  | .error e _ => ∃ t', r' = .error (e.shift n) t'

theorem follows_of_matching {r r' : EStateM.Result Failure ParseState (List Tree)}
    (h : Matching (laterTwin g n).Abreast (Failure.Alike (Later n)) (fun _ => False)
      (Tree.UnitsAlike (Later n)) r r') : Follows n [] r r' := by
  cases h with
  | ok values behind => exact ⟨_, by rw [values.eq_shift, List.nil_append], behind.scopes.symm⟩
  | failed same => exact ⟨_, by rw [Failure.alike_later_iff.mp same]⟩
  | cut early => exact early.elim

theorem Follows.behind {front : List Tree}
    {r r' r'' : EStateM.Result Failure ParseState (List Tree)} (h : Follows n [] r r')
    (h' : Behind front r' r'') : Follows n front r r'' := by
  unfold Follows at h ⊢
  split at h
  · obtain ⟨t, rfl, ht⟩ := h
    obtain ⟨t', rfl, ht'⟩ := h'
    exact ⟨t', by rw [List.nil_append], ht'.trans ht⟩
  · obtain ⟨t, rfl⟩ := h
    exact h'

theorem behind_following (s : ParseState) (lexeme : String) :
    Behind [] (g.program (s.following lexeme)) (g.program s) := by
  rcases heedless_program s lexeme with h | h
  · rw [h]
    exact (Rounds.refl s).program
  · rcases hr : g.program s with ⟨trees, t⟩ | ⟨e, t⟩ <;> rw [hr] at h
    · rw [h.2]
      exact ⟨t, rfl, rfl⟩
    · rw [h]
      exact ⟨t, rfl⟩

/-- **The program in a text that stands later** is the same on later lines. -/
theorem StandsLater.program (h : StandsLater n blanks cs s s') :
    Follows n [] (g.program s) (g.program s') := by
  -- the first look takes the scanners past the blanks; behind it the parses go side by side
  have hlook := h.lookahead (g := g)
  generalize hs : g.lookahead s = r at hlook
  generalize hs' : g.lookahead s' = r' at hlook
  cases hlook with
  | @ok _ _ t t' _ behind =>
    rw [program_of_lookahead hs, program_of_lookahead hs']
    exact (follows_of_matching ((laterTwin g n).program rfl t (t'.following t.previous)
      ⟨behind.1, behind.2, rfl⟩)).behind (behind_following t' t.previous)
  | failed same =>
    obtain ⟨u, hu⟩ := looks_program g _ _ _ hs
    obtain ⟨u', hu'⟩ := looks_program g _ _ _ hs'
    rw [hu, hu']
    exact ⟨u', by rw [Failure.alike_later_iff.mp same]⟩
  | cut early => exact early.elim

/-! ## One text behind another -/

theorem exists_run {source : Source} {units : List Tree} (h : g.parse source = .ok units) :
    ∃ t, g.parseRun source = .ok units t := by
  unfold parse at h
  split at h
  · next hr =>
    cases h
    exact ⟨_, hr⟩
  · cases h

/-- The state in which a parse of a source begins where symbols have been declared globally. -/
def startIn (g : Grammar) (global : Scope) (source : Source) : ParseState :=
  { g.start source with scopes := ⟨global, []⟩ }

/-- **Programs compose.** A text behind an accepted one is parsed as by itself from the global scope
that is left, on lines that are later by the line feeds of the first. -/
theorem parseRun_append (typing : TypingTable) (maxDepth : Nat) (first second : String)
    {units : List Tree} {t : ParseState}
    (h : (standard .standard typing maxDepth).parseRun (.ofString first) = .ok units t) :
    t.scopes.enclosing = [] ∧
      match (standard .standard typing maxDepth).program
        ((standard .standard typing maxDepth).startIn t.scopes.current (.ofString second)) with
      | .ok others u => ∃ u', (standard .standard typing maxDepth).parseRun
            (.ofString (first ++ second)) =
          .ok (units ++ others.map (Tree.shift (UInt32.ofNat (first.toList.count '\n')))) u' ∧
        u'.scopes = u.scopes
      | .error e _ => ∃ u', (standard .standard typing maxDepth).parseRun
            (.ofString (first ++ second)) =
          .error (e.shift (UInt32.ofNat (first.toList.count '\n'))) u' := by
  obtain ⟨found, w, x, hrounds, hlast, rfl, hscopes⟩ := exists_rounds h
  have hstart : Level ((standard .standard typing maxDepth).start (.ofString first))
      ((standard .standard typing maxDepth).start (.ofString (first ++ second))) :=
    ⟨rfl, rfl, rfl, rfl⟩
  have htext : ((standard .standard typing maxDepth).start
      (.ofString (first ++ second))).tokens.scanner.cursor.Holds
        (first.toList ++ second.toList) := by
    rw [← String.toList_append]
    exact Cursor.holds_ofSource (first ++ second)
  obtain ⟨rest, w', hrest, hcount, hrounds', hlevel, hw', hline⟩ :=
    hrounds.append rfl hstart rfl (Cursor.holds_ofSource first) htext
  have hw : t.scopes = w.scopes := by
    obtain ⟨last, hadvance, -⟩ := of_programStep_none hlast
    exact hscopes.trans hadvance.scopes
  have henclosing : t.scopes.enclosing = [] := hw ▸ hrounds.enclosing
  have hstands : StandsLater (UInt32.ofNat (first.toList.count '\n')) rest second.toList
      ((standard .standard typing maxDepth).startIn t.scopes.current (.ofString second)) w' := by
    refine ⟨Cursor.holds_ofSource second, blank_of_programStep_none hlast (hrounds.ahead rfl) hrest,
      hw', ?_, rfl, hlevel.ahead.trans (hrounds.ahead rfl), ?_⟩
    · rw [hline, hcount]
      rfl
    · rw [hlevel.scopes, ← hw]
      change Scopes.mk t.scopes.current [] = t.scopes
      rw [← henclosing]
  exact ⟨henclosing, hstands.program.behind hrounds'.program⟩

theorem parseRun_append_global : ∃ units t,
    (standard .standard .standard 16).parseRun
        (.ofString "var a: Int = 1;\n\x7b const b = a; \x7d\n ;") = .ok units t ∧
      t.scopes.enclosing = [] ∧
      match (standard .standard .standard 16).program
        ((standard .standard .standard 16).startIn t.scopes.current
          (.ofString "a = -a;\nb = a;")) with
      | .ok others u => ∃ u', (standard .standard .standard 16).parseRun
            (.ofString ("var a: Int = 1;\n\x7b const b = a; \x7d\n ;" ++ "a = -a;\nb = a;")) =
          .ok (units ++ others.map (Tree.shift (UInt32.ofNat
            ("var a: Int = 1;\n\x7b const b = a; \x7d\n ;".toList.count '\n')))) u' ∧
        u'.scopes = u.scopes
      | .error e _ => ∃ u', (standard .standard .standard 16).parseRun
            (.ofString ("var a: Int = 1;\n\x7b const b = a; \x7d\n ;" ++ "a = -a;\nb = a;")) =
          .error (e.shift (UInt32.ofNat
            ("var a: Int = 1;\n\x7b const b = a; \x7d\n ;".toList.count '\n'))) u' := by
  obtain ⟨units, hu⟩ := exists_of_isOk <| show ((standard .standard .standard 16).parse
    (.ofString "var a: Int = 1;\n\x7b const b = a; \x7d\n ;")).isOk = true by decide +kernel
  obtain ⟨t, ht⟩ := exists_run hu
  exact ⟨units, t, ht, parseRun_append .standard 16 _ "a = -a;\nb = a;" ht⟩

end ExprLang.Grammar
