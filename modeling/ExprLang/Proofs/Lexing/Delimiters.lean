import ExprLang.Proofs.Blame.Lexical
import ExprLang.Proofs.Lexing.Numbers

/-!
# What follows a number

A number without an exponent has to be followed by a blank, a special character other than a point,
or the end. With an exponent it may be followed by anything that does not go on with it.

* `numberKinds`, `Spells.isNumber`: the literals that are numbers are spelled as such.
* `gives_lexeme_of_number`: in front of a digit or a point the rule for numbers decides.
* `NumberReads.delimited`: what follows a number that has been read.
* `next?_of_unended`: a number that does not end stops the scanner.
* **`numbers_delimited`**: which numbers of a text are delimited.
* **`numbers_delimited_not_all`**: an exponent that is not.
-/

namespace ExprLang

namespace Scanner

open Cursor

variable {v : Vocabulary} {line : UInt32} {cs raw rest : List Char}

/-! ## Numbers among the lexemes -/

/-- The kinds of numbers. -/
def numberKinds : List Kind := [.intLiteral, .floatLiteral]

/-- In the standard language nothing else is of these kinds. -/
theorem Spells.isNumber {kind : Kind} {value : String}
    (h : Spells .standard raw rest kind value) (hk : kind ∈ numberKinds) :
    IsNumber raw ∧ value = .ofList (padPoints false raw) := by
  have hreserved : ∀ e ∈ Vocabulary.standard.lexemes.entries, ∀ k ∈ numberKinds,
      Vocabulary.reservedKind? e.2 ≠ some k := by decide
  cases h with
  | word =>
    unfold Vocabulary.classify at hk
    split at hk
    · next hl => exact absurd rfl (hreserved _ (Table.mem_of_get? hl) _ hk)
    · exact absurd hk (by decide)
    · exact absurd hk (by decide)
  | number written => exact ⟨written, rfl⟩
  | operator _ _ registered _ =>
    obtain ⟨op, hop, hmem⟩ := Vocabulary.exists_of_operatorKind? registered
    exact absurd (congrArg some hop) (hreserved _ hmem _ hk)

theorem IsNumeral.starts (h : IsNumeral raw) : ¬StartsNoNumber (raw ++ rest) := by
  rintro ⟨hdigit, hpoint⟩
  cases h with
  | whole nonempty decimal =>
    obtain ⟨c, digits, rfl⟩ := List.exists_cons_of_ne_nil nonempty
    have hc := decimal c List.mem_cons_self
    rw [hdigit c rfl] at hc
    cases hc
  | @pointed digits fraction decimal _ =>
    cases digits with
    | nil => exact hpoint rfl
    | cons c digits =>
      have hc := decimal c List.mem_cons_self
      rw [hdigit c rfl] at hc
      cases hc

theorem IsNumber.starts (h : IsNumber raw) : ¬StartsNoNumber (raw ++ rest) := by
  cases h with
  | plain mantissa => exact mantissa.starts
  | scientific mantissa _ _ =>
    rw [List.append_assoc]
    exact mantissa.starts

theorem stops_of_starts {p : Char → Bool} (h : ¬StartsNoNumber cs) (hpoint : p '.' = false)
    (hdigit : ∀ c : Char, c.isDigit = true → p c = false) : Stops p cs := by
  intro c hc
  by_cases hp : c = '.'
  · rw [hp]
    exact hpoint
  · cases hd : c.isDigit with
    | true => exact hdigit c hd
    | false =>
      refine absurd ⟨fun d hd' => ?_, fun hhead => hp ?_⟩ h
      · exact Option.some.inj (hc.symm.trans hd') ▸ hd
      · exact Option.some.inj (hc.symm.trans hhead)

/-- A digit or a point starts no word. -/
theorem stops_startsWord (h : ¬StartsNoNumber cs) : Stops startsWord cs :=
  stops_of_starts h (by decide) fun _ => not_startsWord_of_isDigit

theorem stops_isBlank (h : ¬StartsNoNumber cs) : Stops Unicode.isBlank cs :=
  stops_of_starts h (by decide) fun _ => Unicode.not_isBlank_of_isDigit

/-- In front of a digit or a point the rule for numbers decides. -/
theorem gives_lexeme_of_number (h : ¬StartsNoNumber cs) (c : Char) :
    Gives (fun e => ∃ after, NumberReads v cs (.invalid after) ∧
        e = .refused ⟨.invalidNumber after, line⟩)
      (lexeme v c) line cs fun token rest =>
        NumberReads v cs (.literal token.kind token.value rest) := by
  refine gives_orElse (C := True) (.bind gives_peek ?_) fun _ => gives_orElse (C := False) ?_ nofun
  · rintro _ _ ⟨rfl, rfl⟩
    rw [if_neg]
    · exact .pure ⟨rfl, trivial⟩
    · intro hany
      obtain ⟨d, hd, hword⟩ := (Option.any_eq_true _ _).mp hany
      rw [stops_startsWord h d hd] at hword
      cases hword
  · refine (gives_numberReads cs).mono ?_
    rintro (_ | token) rest hr
    · exact ⟨hr.1, h hr.2⟩
    · exact hr.1

/-! ## What follows a number that is read -/

/-- **A number without an exponent is delimited.** -/
theorem NumberReads.delimited {kind : Kind} {value : String}
    (h : NumberReads v (raw ++ rest) (.literal kind value rest)) :
    'e' ∈ raw ∨ ∀ c ∈ rest.head?, endsNumber v c = true := by
  cases h with
  | present mantissa goesOn =>
    cases goesOn with
    | scientific signed power =>
      have hraw := mantissa.written
      rw [signed.written.2, power.written, ← List.append_assoc, ← List.cons_append,
        ← List.append_assoc] at hraw
      rw [List.append_cancel_right hraw]
      exact .inl (by simp)
    | plain _ ended => exact .inr ended

section

variable {front front' cs' : List Char} {found : List Origin} {x : Origin}
  (h : Traced .standard line front cs found front' cs') (hx : x ∈ found)
  (hk : x.token.kind ∈ numberKinds)

include h hx hk

theorem Traced.isNumber :
    x.raw ≠ [] ∧ IsNumber x.raw ∧ x.token.value = .ofList (padPoints false x.raw) := by
  obtain ⟨-, rest, -, ⟨-, -, heof⟩ | hspells⟩ := h.placed x hx
  · rw [heof] at hk
    exact absurd hk (show Kind.eof ∉ numberKinds by decide)
  · exact ⟨hspells.ne_nil, hspells.isNumber hk⟩

/-- A number that is found in a text is what comes of the characters there. -/
theorem Traced.numberReads
    (hfinds : x.raw ≠ [] → ∃ behind, x.front ++ (x.raw ++ behind) = front ++ cs ∧
      Finds .standard (x.raw ++ behind) x.token behind) :
    ∃ behind, front ++ cs = x.front ++ (x.raw ++ behind) ∧
      NumberReads .standard (x.raw ++ behind) (.literal x.token.kind x.token.value behind) ∧
      ('e' ∈ x.raw ∨ ∀ c ∈ behind.head?, endsNumber .standard c = true) := by
  obtain ⟨hne, hnumber, -⟩ := h.isNumber hx hk
  obtain ⟨behind, hbehind, c, s, t, hs, hlexeme, ht⟩ := hfinds hne
  have hgives := gives_lexeme_of_number (v := .standard) hnumber.starts c s hs rfl
  rw [hlexeme] at hgives
  obtain ⟨left, hleft, -, hreads⟩ := hgives
  obtain rfl := hleft.unique ht
  exact ⟨left, hbehind.symm, hreads, hreads.delimited⟩

end

/-! ## What follows a number that is refused -/

section

variable {m : Numeral} {c : Char} {others blanks : List Char}
  (hm : m.Heads (m.raw ++ c :: others) (c :: others)) (he : c ≠ 'e')
  (hends : endsNumber v c = false)

include hm he hends

theorem gives_lexeme_of_unended (d : Char) :
    Gives (· = .refused ⟨.invalidNumber m.text, line⟩) (lexeme v d) line (m.raw ++ c :: others)
      fun _ _ => False := by
  have hreads : NumberReads v (m.raw ++ c :: others) (.invalid m.text) :=
    .present hm (.unended he hends)
  refine ((gives_lexeme_of_number hm.starts d).mono_error ?_).mono ?_
  · rintro _ ⟨after, h, rfl⟩
    cases h.unique hreads
    rfl
  · intro token rest h
    cases h.unique hreads

theorem next?_of_unended {s : Scanner} (hblank : ∀ d ∈ blanks, Unicode.isBlank d = true)
    (hs : s.cursor.Holds (blanks ++ (m.raw ++ c :: others))) :
    ∃ t, next? v s =
      .error (.refused ⟨.invalidNumber m.text, lineBehind s.line blanks⟩) t := by
  obtain ⟨blanks', others', hsplit, hblank', hstops, hnext⟩ := next?_behind_blanks v hs
  obtain ⟨rfl, rfl⟩ := (stops_isBlank hm.starts).unique hstops hblank hblank' hsplit
  have hnext := hnext _ (fun _ _ => False) (fun hnil => absurd hnil (by simp))
    fun d _ => gives_lexeme_of_unended hm he hends d
  rcases hr : next? v s with ⟨r, t⟩ | ⟨e, t⟩ <;> rw [hr] at hnext
  · obtain ⟨_, _, _, hfalse⟩ := hnext
    exact hfalse.elim
  · exact ⟨t, congrArg (EStateM.Result.error · t) hnext⟩

end

end Scanner

open Scanner TokenStream

/-- **Numbers without an exponent are delimited**, and each number is what comes of the characters
from its lexeme on. -/
theorem numbers_delimited (text : String) :
    (∀ tokens stream, tokenize .standard (.ofSource (.ofString text)) = .ok tokens stream →
      ∃ found front rest, tokens = found.map Origin.token ∧
        Traced .standard 1 [] text.toList found front rest ∧
        ∀ x ∈ found, x.token.kind ∈ numberKinds →
          ∃ behind, text.toList = x.front ++ (x.raw ++ behind) ∧
            NumberReads .standard (x.raw ++ behind)
              (.literal x.token.kind x.token.value behind) ∧
            ('e' ∈ x.raw ∨ ∀ c ∈ behind.head?, endsNumber .standard c = true)) ∧
    ∀ taken stream blanks others (m : Numeral) c,
      Takes .standard (.ofSource (.ofString text)) taken stream →
      stream.ahead = none → stream.scanner.cursor.Holds (blanks ++ (m.raw ++ c :: others)) →
      (∀ d ∈ blanks, Unicode.isBlank d = true) →
      m.Heads (m.raw ++ c :: others) (c :: others) → c ≠ 'e' → endsNumber .standard c = false →
        ∃ t, tokenize .standard (.ofSource (.ofString text)) =
          .error (.refused ⟨.invalidNumber m.text, lineBehind stream.scanner.line blanks⟩) t := by
  refine ⟨fun tokens stream h => ?_, ?_⟩
  · obtain ⟨last, htakes, hahead⟩ := takes_of_tokenize h
    obtain ⟨found, front, rest, heq, htraced, hfinds, -⟩ :=
      htakes.traced_found Vocabulary.withinLines_standard
    rw [hahead, Option.toList_none, List.append_nil] at heq
    exact ⟨found, front, rest, heq, htraced, fun x hx hk =>
      htraced.numberReads hx hk (hfinds x hx)⟩
  · intro taken stream blanks others m c htakes hahead hs hblank hm he hends
    obtain ⟨_, hnext⟩ := next?_of_unended hm he hends hblank hs
    exact tokenize_of_takes_error htakes (consume_of_next?_error hahead hnext)

theorem numbers_delimited_mixed :
    (∃ tokens stream, tokenize .standard (.ofSource (.ofString "1.5<2e3x")) = .ok tokens stream ∧
      ∃ found front rest, tokens = found.map Origin.token ∧
        Traced .standard 1 [] "1.5<2e3x".toList found front rest ∧
        ∀ x ∈ found, x.token.kind ∈ numberKinds →
          ∃ behind, "1.5<2e3x".toList = x.front ++ (x.raw ++ behind) ∧
            NumberReads .standard (x.raw ++ behind)
              (.literal x.token.kind x.token.value behind) ∧
            ('e' ∈ x.raw ∨ ∀ c ∈ behind.head?, endsNumber .standard c = true)) ∧
    ∃ t, tokenize .standard (.ofSource (.ofString " 12a")) =
      .error (.refused ⟨.invalidNumber "12", 1⟩) t := by
  constructor
  · obtain ⟨found, hfound, -⟩ := Option.map_eq_some_iff.mp <|
      show (tokensOf .standard "1.5<2e3x").map (List.map Token.value) =
        some ["1.5", "<", "2e3", "x"] by decide +kernel
    obtain ⟨tokens, stream, h, -⟩ := exists_tokens hfound
    exact ⟨tokens, stream, h, (numbers_delimited "1.5<2e3x").1 tokens stream h⟩
  · have hm : Numeral.Heads ⟨"12", none⟩ (Numeral.raw ⟨"12", none⟩ ++ 'a' :: []) ('a' :: []) :=
      ⟨rfl, ⟨by simp [Digits], nofun⟩, .inl (by decide), by rintro _ ⟨⟩; rfl, by simp⟩
    exact (numbers_delimited " 12a").2 [] _ [' '] [] ⟨"12", none⟩ 'a' (.refl _) rfl
      (Cursor.holds_ofSource " 12a") (List.forall_mem_singleton.mpr rfl) hm (by decide) (by decide)

/-- Behind an exponent a letter may follow at once. -/
theorem numbers_delimited_not_all :
    ¬∀ text tokens stream, tokenize .standard (.ofSource (.ofString text)) = .ok tokens stream →
      ∃ found front rest, tokens = found.map Origin.token ∧
        Traced .standard 1 [] text.toList found front rest ∧
        ∀ x ∈ found, x.token.kind ∈ numberKinds →
          ∃ behind, text.toList = x.front ++ (x.raw ++ behind) ∧
            ∀ c ∈ behind.head?, endsNumber .standard c = true ∨ c = 'e' := by
  intro hall
  obtain ⟨visible, hvisible, hlexemes⟩ := Option.map_eq_some_iff.mp <|
    show (tokensOf .standard "1e2x").map (List.map Token.lexeme) =
      some [(.floatLiteral, "1e2"), (.identifier, "x")] by decide +kernel
  obtain ⟨tokens, stream, h, rfl⟩ := exists_tokens hvisible
  obtain ⟨found, front, rest, rfl, htraced, hdelimited⟩ := hall _ tokens stream h
  obtain ⟨token, hmem, htoken⟩ := List.mem_map.mp <|
    show (Kind.floatLiteral, "1e2") ∈ _ from hlexemes ▸ List.mem_cons_self
  obtain ⟨x, hx, rfl⟩ := List.mem_map.mp (List.mem_filter.mp hmem).1
  obtain ⟨hkind, hvalue⟩ := Prod.mk.inj htoken
  have hk : x.token.kind ∈ numberKinds := hkind ▸ by decide
  obtain ⟨behind, htext, hends⟩ := hdelimited x hx hk
  have hraw : padPoints false x.raw = "1e2".toList := by
    rw [← hvalue, (htraced.isNumber hx hk).2.2, String.toList_ofList]
  -- wherever these characters are in the text, they are followed by the letter
  have hletter : ∀ i ≤ 4, ∀ j ≤ 4,
      padPoints false (("1e2x".toList.drop i).take j) = "1e2".toList →
        (("1e2x".toList.drop i).drop j).head? = some 'x' := by decide
  have hlength := congrArg List.length htext
  rw [List.length_append, List.length_append, show "1e2x".toList.length = 4 from rfl] at hlength
  have hx' := hletter x.front.length (by omega) x.raw.length (by omega)
  rw [htext, List.drop_left, List.take_left, List.drop_left] at hx'
  have hx' := hx' hraw
  rcases hends 'x' hx' with hends | hends
  · exact absurd hends (by decide)
  · exact absurd hends (by decide)

end ExprLang
