import ExprLang.Proofs.Language.Kinds
import ExprLang.Proofs.Lexing.Gives
import ExprLang.Proofs.Lexing.Yields

/-!
# The lexemes of a text

A text that is tokenized consists of lexemes with blanks between them, and each token says which
characters it was read from.

* `IsNumeral`, `IsNumber`, `padPoints`: numbers as they are written, and as tokens hold them.
* `Spells`: which characters are read as a lexeme, in front of which others.
* `gives_word?`, `gives_number?`, `gives_operator?`: the lexeme that a rule finds.
* `Partition`, **`partition_of_tokenize`**: the text of a sequence of tokens.
-/

namespace ExprLang

namespace Scanner

open Cursor

/-! ## Numbers as they are written -/

/-- Digits, perhaps with a point in front of them, among them or behind them, or a point alone. -/
inductive IsNumeral : List Char → Prop
  | whole {digits : List Char} (nonempty : digits ≠ []) (decimal : ∀ c ∈ digits, c.isDigit = true) :
      IsNumeral digits
  | pointed {digits fraction : List Char} (decimal : ∀ c ∈ digits, c.isDigit = true)
      (decimal' : ∀ c ∈ fraction, c.isDigit = true) : IsNumeral (digits ++ '.' :: fraction)

/-- The characters of a sign, of which the first is none. -/
def signCharacters : List (List Char) := [[], ['+'], ['-']]

/-- A number, perhaps with an exponent. -/
inductive IsNumber : List Char → Prop
  | plain {cs : List Char} (mantissa : IsNumeral cs) : IsNumber cs
  | scientific {cs sign ds : List Char} (mantissa : IsNumeral cs) (signed : sign ∈ signCharacters)
      (power : IsNumeral ds) : IsNumber (cs ++ 'e' :: (sign ++ ds))

/-- A number with a point or an exponent is a floating-point literal. -/
def numberKind (cs : List Char) : Kind :=
  if '.' ∈ cs ∨ 'e' ∈ cs then .floatLiteral else .intLiteral

/-- The number with a `0` on each side of a point where no digit stands. `digit` says whether one
stands in front of the characters. -/
def padPoints (digit : Bool) : List Char → List Char
  | [] => []
  | c :: cs =>
    if c = '.' then
      (if digit then [] else ['0']) ++
        '.' :: ((if cs.head?.any Char.isDigit then [] else ['0']) ++ padPoints false cs)
    else c :: padPoints c.isDigit cs

/-- What a number is read from. -/
def Numeral.raw (n : Numeral) : List Char :=
  n.whole.toList ++
    match n.fraction with
    | some digits => '.' :: digits.toList
    | none => []

/-- A number of which there is something to read. -/
def Numeral.Visible (n : Numeral) : Prop := n.whole ≠ "" ∨ n.fraction.isSome = true

/-- The characters start with the number and go on with `rest`. No run of its digits is longer. -/
structure Numeral.Heads (n : Numeral) (cs rest : List Char) : Prop where
  written : cs = n.raw ++ rest
  decimal : n.Decimal
  visible : n.Visible
  longest : EndsNumeral n rest

/-- `Signed mark cs rest`: the characters start with a sign and go on with `rest`, or there is no
sign to start with. -/
inductive Signed : String → List Char → List Char → Prop
  | plus {rest : List Char} : Signed "+" ('+' :: rest) rest
  | minus {rest : List Char} : Signed "-" ('-' :: rest) rest
  | unsigned {rest : List Char} (noPlus : rest.head? ≠ some '+') (noMinus : rest.head? ≠ some '-') :
      Signed "" rest rest

theorem Signed.written {mark : String} {cs rest : List Char} (h : Signed mark cs rest) :
    mark.toList ∈ signCharacters ∧ cs = mark.toList ++ rest := by
  cases h with
  | plus | minus | unsigned => exact ⟨by decide, rfl⟩

theorem ne_point_of_isDigit {c : Char} (h : c.isDigit = true) : c ≠ '.' := by
  rintro rfl
  cases h

theorem padPoints_digits {digits : List Char} (h : ∀ c ∈ digits, c.isDigit = true) (digit : Bool)
    (cs : List Char) :
    padPoints digit (digits ++ cs) = digits ++ padPoints (digit || !digits.isEmpty) cs := by
  induction digits generalizing digit with
  | nil => simp
  | cons c digits ih =>
    obtain ⟨hc, hdigits⟩ := List.forall_mem_cons.mp h
    rw [List.cons_append, padPoints, if_neg (ne_point_of_isDigit hc), ih hdigits, hc]
    simp

/-- Behind a number it does not matter what stood in front. -/
theorem padPoints_of_startsNoNumber {cs : List Char} (h : StartsNoNumber cs) (digit : Bool) :
    padPoints digit cs = padPoints false cs := by
  cases cs with
  | nil => rfl
  | cons c cs =>
    have hc : c ≠ '.' := fun hc => h.2 (by rw [hc]; rfl)
    rw [padPoints, padPoints, if_neg hc, if_neg hc]

theorem toList_orZero (digits : String) :
    (orZero digits).toList = (if digits.toList.isEmpty then ['0'] else digits.toList) := by
  unfold orZero
  by_cases h : digits = "" <;> simp [h]

namespace Numeral

variable {n : Numeral} {cs : List Char}

theorem isNumeral_raw (hd : n.Decimal) (hv : n.Visible) : IsNumeral n.raw := by
  obtain ⟨whole, _ | fraction⟩ := n
  · rw [raw, List.append_nil]
    refine .whole (fun h => ?_) hd.whole
    exact (hv.resolve_right (by simp)) (String.toList_eq_nil_iff.mp h)
  · exact .pointed hd.whole (hd.fraction _ rfl)

theorem padPoints_raw (hd : n.Decimal) (hv : n.Visible) (hr : StartsNoNumber cs) :
    padPoints false (n.raw ++ cs) = n.text.toList ++ padPoints false cs := by
  obtain ⟨whole, _ | fraction⟩ := n
  · have hw : whole ≠ "" := hv.resolve_right (by simp)
    rw [raw, List.append_nil, padPoints_digits hd.whole, padPoints_of_startsNoNumber hr, text]
    simp only [orZero_of_ne hw]
  · have hf := hd.fraction _ rfl
    have htext : (Numeral.mk whole (some fraction)).text.toList =
        (orZero whole).toList ++ '.' :: (orZero fraction).toList := by
      change (orZero whole ++ "." ++ orZero fraction).toList = _
      simp
    have hhead : (fraction.toList ++ cs).head?.any Char.isDigit = !fraction.toList.isEmpty := by
      rcases hc : fraction.toList with _ | ⟨c, others⟩
      · rw [List.nil_append, List.isEmpty_nil, Bool.not_true, ← Bool.not_eq_true]
        intro hany
        obtain ⟨c, hc, hdigit⟩ := (Option.any_eq_true _ _).mp hany
        rw [hr.1 c hc] at hdigit
        cases hdigit
      · rw [List.cons_append, List.head?_cons, Option.any_some]
        exact hf c (hc ▸ List.mem_cons_self)
    rw [raw, htext, toList_orZero, toList_orZero, List.append_assoc, padPoints_digits hd.whole,
      List.cons_append, padPoints, if_pos rfl, hhead, padPoints_digits hf,
      padPoints_of_startsNoNumber hr]
    cases whole.toList <;> cases fraction.toList <;> simp

theorem mem_raw (hd : n.Decimal) : 'e' ∉ n.raw ∧ ('.' ∈ n.raw ↔ n.fraction.isSome = true) := by
  have hdigits : ∀ {digits : String}, Digits digits → 'e' ∉ digits.toList ∧ '.' ∉ digits.toList :=
    fun h => ⟨fun hm => absurd (h _ hm) (by decide), fun hm => absurd (h _ hm) (by decide)⟩
  obtain ⟨whole, _ | fraction⟩ := n
  · have hw := hdigits hd.whole
    simp [raw, hw]
  · have hw := hdigits hd.whole
    have hf := hdigits (hd.fraction _ rfl)
    simp [raw, hw, hf]

theorem numberKind_raw (hd : n.Decimal) : numberKind n.raw = n.kind := by
  obtain ⟨he, hp⟩ := mem_raw hd
  unfold numberKind kind
  by_cases h : n.fraction.isSome = true
  · rw [if_pos h, if_pos (.inl (hp.mpr h))]
  · rw [if_neg h, if_neg (not_or.mpr ⟨fun hm => h (hp.mp hm), he⟩)]

end Numeral

/-! ## What a rule finds -/

/-- `Spells v raw rest kind value`: in front of `rest` the characters `raw` are a lexeme of this
kind, which the token holds as `value`. The three sorts of lexemes start differently. -/
inductive Spells (v : Vocabulary) : List Char → List Char → Kind → String → Prop
  | word {c : Char} {cs rest : List Char} (starts : startsWord c = true)
      (continues : ∀ d ∈ cs, continuesWord d = true) (longest : Stops continuesWord rest) :
      Spells v (c :: cs) rest (v.classify (.ofList (c :: cs))) (.ofList (c :: cs))
  | number {raw rest : List Char} (written : IsNumber raw) :
      Spells v raw rest (numberKind raw) (.ofList (padPoints false raw))
  | operator {c : Char} {cs rest : List Char} {kind : Kind} (other : startsWord c = false)
      (starts : StartsNoNumber (c :: cs))
      (registered : v.operatorKind? (.ofList (c :: cs)) = some kind)
      (longest : Separate v (.ofList (c :: cs)) rest) :
      Spells v (c :: cs) rest kind (.ofList (c :: cs))

/-- The token was read from the characters in front of `rest`, on this line. -/
def Found (v : Vocabulary) (line : UInt32) (cs : List Char) (token : Token) (rest : List Char) :
    Prop :=
  ∃ raw, cs = raw ++ rest ∧ Spells v raw rest token.kind token.value ∧ token.line = line

variable {v : Vocabulary} {line : UInt32} {cs : List Char} {E : Failure → Prop}

theorem gives_word? (hE : ∀ cause, E (.refused ⟨cause, line⟩)) :
    Gives E (word? v) line cs fun r rest =>
      match r with
      | some token => Found v line cs token rest
      | none => cs = rest ∧ Stops startsWord cs := by
  refine .bind gives_peek ?_
  rintro _ _ ⟨rfl, rfl⟩
  by_cases hc : cs.head?.any startsWord = true
  · obtain ⟨c, hhead, hc⟩ := (Option.any_eq_true _ _).mp hc
    obtain ⟨others, rfl⟩ := List.head?_eq_some_iff.mp hhead
    rw [if_pos (by simpa using hc)]
    refine .map (P := Found v line (c :: others)) (gives_get fun s hs => ?_) fun _ _ h => h
    refine .bind (gives_takeWhile continuesWord) ?_
    rintro word rest ⟨hword, hall, hstops⟩
    obtain ⟨front, hfront⟩ : ∃ front, word.toList = c :: front := by
      rcases hw : word.toList with _ | ⟨d, front⟩
      · rw [hw, List.nil_append] at hword
        rw [← hword] at hstops
        exact absurd (hstops c rfl) (by rw [continuesWord_of_startsWord hc]; decide)
      · rw [hw, List.cons_append] at hword
        exact ⟨front, by rw [(List.cons.inj hword).1]⟩
    have hvalue : String.ofList (c :: front) = word := by rw [← hfront, String.ofList_toList]
    have hfound : Found v line (c :: others) ⟨v.classify word, word, s.line⟩ rest := by
      refine ⟨c :: front, hfront ▸ hword, ?_, hs⟩
      rw [hfront, List.forall_mem_cons] at hall
      rw [← hvalue]
      exact .word hc hall.2 hstops
    refine .bind gives_peek ?_
    rintro _ _ ⟨rfl, rfl⟩
    split
    · split
      · exact .pure hfound
      · exact hs ▸ gives_refuse (hs ▸ hE _)
    · exact .pure hfound
  · rw [if_neg hc]
    refine .pure ⟨rfl, fun c hhead => ?_⟩
    rw [hhead] at hc
    simpa using hc

theorem gives_numeral? :
    Gives E numeral? line cs fun r rest =>
      match r with
      | some n => n.Heads cs rest
      | none => cs = rest ∧ StartsNoNumber cs := by
  refine .bind (gives_takeWhile Char.isDigit) ?_
  rintro whole others ⟨rfl, hwhole, hstops⟩
  refine .bind (gives_accept '.') ?_
  rintro point rest (⟨rfl, rfl⟩ | ⟨rfl, hpoint, rfl⟩)
  · rw [if_pos rfl]
    refine .bind (gives_takeWhile Char.isDigit) ?_
    rintro fraction behind ⟨rfl, hfraction, hends⟩
    refine .pure ⟨by simp [Numeral.raw], ⟨hwhole, fun digits hd => ?_⟩, .inr rfl, hends, nofun⟩
    cases hd
    exact hfraction
  · rw [if_neg (by decide)]
    split
    · next hempty =>
      obtain rfl : whole = "" := by simpa using hempty
      exact .pure ⟨rfl, hstops, hpoint⟩
    · next hempty =>
      exact .pure ⟨by simp [Numeral.raw], ⟨hwhole, nofun⟩, .inl (by simpa using hempty), hstops,
        fun _ => hpoint⟩

theorem gives_sign : Gives E sign line cs fun mark rest => Signed mark cs rest := by
  refine .bind (gives_accept '+') ?_
  rintro _ _ (⟨rfl, rfl⟩ | ⟨rfl, hplus, rfl⟩)
  · exact .pure .plus
  · refine .bind (gives_accept '-') ?_
    rintro _ _ (⟨rfl, rfl⟩ | ⟨rfl, hminus, rfl⟩)
    · exact .pure .minus
    · exact .pure (.unsigned hplus hminus)

/-- What may follow a number is an exponent or is left. -/
theorem gives_numberToken (hE : ∀ cause, E (.refused ⟨cause, line⟩)) {m : Numeral}
    (hd : m.Decimal) (hv : m.Visible) :
    Gives E (numberToken v line m) line cs fun token rest =>
      ∃ tail, cs = tail ++ rest ∧ IsNumber (m.raw ++ tail) ∧
        token = ⟨numberKind (m.raw ++ tail), .ofList (padPoints false (m.raw ++ tail)), line⟩ := by
  have hnil : StartsNoNumber [] := ⟨nofun, by simp⟩
  refine .bind (gives_accept 'e') ?_
  rintro _ others (⟨rfl, rfl⟩ | ⟨rfl, he, rfl⟩)
  · refine .bind gives_sign ?_
    rintro mark _ hsigned
    obtain ⟨hmark, rfl⟩ := hsigned.written
    refine .bind gives_numeral? ?_
    rintro (_ | x) rest h
    · exact gives_refuse (hE _)
    · obtain ⟨rfl, hxd, hxv, -⟩ := h
      refine .pure ⟨'e' :: (mark.toList ++ x.raw), by simp, ?_, ?_⟩
      · exact .scientific (Numeral.isNumeral_raw hd hv) hmark (Numeral.isNumeral_raw hxd hxv)
      · have htail : StartsNoNumber ('e' :: (mark.toList ++ x.raw)) :=
          ⟨fun c hc => Option.some.inj hc ▸ rfl, by simp⟩
        have hx := Numeral.padPoints_raw hxd hxv hnil
        rw [List.append_nil, padPoints, List.append_nil] at hx
        have hsign : padPoints false ('e' :: (mark.toList ++ x.raw)) =
            'e' :: (mark.toList ++ x.text.toList) := by
          simp only [signCharacters, List.mem_cons, List.not_mem_nil, or_false] at hmark
          rcases hmark with h | h | h <;> simp [h, padPoints, hx]
        have hkind : numberKind (m.raw ++ 'e' :: (mark.toList ++ x.raw)) = .floatLiteral :=
          if_pos (.inr (by simp))
        rw [Numeral.padPoints_raw hd hv htail, hsign, hkind]
        refine congrArg (Token.mk _ · line) (String.toList_inj.mp ?_)
        simp
  · rw [if_neg (by decide)]
    refine .bind gives_peek ?_
    rintro _ _ ⟨rfl, rfl⟩
    split
    · refine .pure ⟨[], rfl, ?_, ?_⟩
      · rw [List.append_nil]
        exact .plain (Numeral.isNumeral_raw hd hv)
      · rw [Numeral.padPoints_raw hd hv hnil, List.append_nil, padPoints,
          List.append_nil, Numeral.numberKind_raw hd, String.ofList_toList]
    · exact gives_refuse (hE _)

theorem gives_number? (hE : ∀ cause, E (.refused ⟨cause, line⟩)) :
    Gives E (number? v) line cs fun r rest =>
      match r with
      | some token => Found v line cs token rest
      | none => cs = rest ∧ StartsNoNumber cs := by
  refine gives_get fun s hs => .bind gives_numeral? ?_
  rintro (_ | m) others h
  · exact .pure h
  · obtain ⟨rfl, hd, hv, -⟩ := h
    rw [hs]
    refine .map (gives_numberToken hE hd hv) ?_
    rintro _ rest ⟨tail, rfl, hn, rfl⟩
    exact ⟨m.raw ++ tail, (List.append_assoc ..).symm, .number hn, rfl⟩

/-- The longest lexeme of which each beginning is registered. -/
theorem foldFront_operatorStep_eq {found found' : String × Option Kind} {cs rest : List Char}
    (h : foldFront (operatorStep v) found cs = (found', rest)) :
    ∃ raw, cs = raw ++ rest ∧ found'.1 = found.1 ++ .ofList raw ∧ grows v found.1 raw = true ∧
      Separate v found'.1 rest ∧
      (raw = [] ∧ found' = found ∨ raw ≠ [] ∧ found'.2 = v.operatorKind? found'.1 ∧
        found'.2.isSome = true) := by
  induction cs generalizing found with
  | nil =>
    cases h
    exact ⟨[], rfl, by simp, rfl, nofun, .inl ⟨rfl, rfl⟩⟩
  | cons c cs ih =>
    rw [foldFront, operatorStep] at h
    rcases hk : v.operatorKind? (found.1.push c) with _ | kind <;> rw [hk] at h
    · cases h
      refine ⟨[], rfl, by simp, rfl, ?_, .inl ⟨rfl, rfl⟩⟩
      rintro _ ⟨⟩
      exact hk
    · obtain ⟨raw, rfl, hvalue, hgrows, hseparate, hfound⟩ := ih h
      refine ⟨c :: raw, rfl, ?_, ?_, hseparate, .inr ⟨List.cons_ne_nil _ _, ?_⟩⟩
      · rw [hvalue]
        exact String.toList_inj.mp (by simp)
      · rw [grows, hk, hgrows]
        rfl
      · rcases hfound with ⟨rfl, rfl⟩ | ⟨-, hfound⟩
        · exact ⟨hk.symm, rfl⟩
        · exact hfound

theorem gives_operator? (hword : Stops startsWord cs) (hnumber : StartsNoNumber cs) :
    Gives E (operator? v) line cs fun r rest =>
      match r with
      | some token => Found v line cs token rest
      | none => cs = rest := by
  refine gives_get fun s hs => .bind (gives_foldWhile (operatorStep v) ("", none)) ?_
  rintro ⟨value, kind?⟩ rest h
  obtain ⟨raw, rfl, hvalue, -, hseparate, hfound⟩ := foldFront_operatorStep_eq h
  rw [String.empty_append] at hvalue
  rcases hfound with ⟨rfl, hfound⟩ | ⟨hne, hkind, hsome⟩
  · cases hfound
    exact .pure rfl
  · obtain ⟨c, front, rfl⟩ := List.exists_cons_of_ne_nil hne
    obtain ⟨kind, rfl⟩ := Option.isSome_iff_exists.mp hsome
    subst hvalue
    refine .pure ⟨c :: front, rfl, .operator (hword c rfl) ?_ hkind.symm hseparate, hs⟩
    exact hnumber

/-! ## The next lexeme -/

theorem gives_orElse {first : ScanM (Option Token)} {second : ScanM Token}
    {P : Token → List Char → Prop} {C : Prop}
    (hfirst : Gives E first line cs fun r rest =>
      match r with
      | some token => P token rest
      | none => cs = rest ∧ C)
    (hsecond : C → Gives E second line cs P) : Gives E (orElse first second) line cs P := by
  refine .bind hfirst ?_
  rintro (_ | token) rest h
  · obtain ⟨rfl, hc⟩ := h
    exact hsecond hc
  · exact .pure h

/-- A word, else a number, else an operator. -/
theorem gives_lexeme (hE : ∀ cause, E (.refused ⟨cause, line⟩)) (c : Char) :
    Gives E (lexeme v c) line cs (Found v line cs) := by
  refine gives_orElse (gives_word? hE) fun hword => ?_
  refine gives_orElse (gives_number? hE) fun hnumber => ?_
  refine gives_orElse (C := True) ((gives_operator? hword hnumber).mono ?_) fun _ => ?_
  · rintro (_ | token) rest h
    · exact ⟨h, trivial⟩
    · exact h
  · refine gives_get fun s hs => ?_
    rw [hs]
    exact gives_refuse (hE _)

/-- Behind the blanks that come next a scanner is at the end, or does what the rules for lexemes do
there. -/
theorem next?_behind_blanks {s : Scanner} (v : Vocabulary) (h : s.cursor.Holds cs) :
    ∃ blanks others, cs = blanks ++ others ∧ (∀ c ∈ blanks, Unicode.isBlank c = true) ∧
      Stops Unicode.isBlank others ∧
      ∀ (E : Failure → Prop) (Q : Option Token → List Char → Prop), (others = [] → Q none []) →
        (∀ c, others.head? = some c → Gives E (lexeme v c) (lineBehind s.line blanks) others
          fun token rest => Q (some token) rest) →
        match next? v s with
        | .ok r t => ∃ rest, t.cursor.Holds rest ∧ t.line = lineBehind s.line blanks ∧ Q r rest
        | .error e _ => E e := by
  obtain ⟨blanks, others, u, rfl, hblank, hstops, hskip, hu, hline⟩ := skipBlanks_of_holds h
  refine ⟨blanks, others, rfl, hblank, hstops, fun E Q hnone hsome => ?_⟩
  obtain ⟨x, hx, hgives⟩ : ∃ x, next? v = (skipBlanks >>= fun _ => x) ∧
      Gives E x (lineBehind s.line blanks) others Q := by
    refine ⟨_, rfl, .bind gives_peek ?_⟩
    rintro _ _ ⟨rfl, rfl⟩
    cases others with
    | nil => exact .pure (hnone rfl)
    | cons c others => exact .map (hsome c rfl) fun _ _ h => h
  have hnext : next? v s = x u := by
    rw [hx]
    simp only [bind, EStateM.bind, hskip]
  have hgives := hgives u hu hline
  rw [hnext]
  rcases hr : x u with ⟨r, t⟩ | ⟨e, t⟩ <;> rw [hr] at hgives <;> exact hgives

/-- What a scanner finds behind the blanks that come next: nothing, a lexeme, or an error that is
blamed on the line of the first character behind them. -/
theorem next?_of_holds {s : Scanner} (h : s.cursor.Holds cs) :
    ∃ blanks others, cs = blanks ++ others ∧ (∀ c ∈ blanks, Unicode.isBlank c = true) ∧
      match next? v s with
      | .ok none t => others = [] ∧ t.cursor.Holds [] ∧ t.line = lineBehind s.line blanks
      | .ok (some token) t => ∃ rest, Found v (lineBehind s.line blanks) others token rest ∧
          t.cursor.Holds rest ∧ t.line = lineBehind s.line blanks
      | .error e _ => ∃ cause, e = .refused ⟨cause, lineBehind s.line blanks⟩ := by
  obtain ⟨blanks, others, rfl, hblank, -, hnext⟩ := next?_behind_blanks v h
  refine ⟨blanks, others, rfl, hblank, ?_⟩
  have hnext := hnext (fun e => ∃ cause, e = .refused ⟨cause, lineBehind s.line blanks⟩)
    (fun r rest =>
      match r with
      | some token => Found v (lineBehind s.line blanks) others token rest
      | none => others = [] ∧ rest = [])
    (fun hnil => ⟨hnil, rfl⟩) fun c _ => gives_lexeme (fun cause => ⟨cause, rfl⟩) c
  rcases hr : next? v s with ⟨_ | token, t⟩ | ⟨e, t⟩ <;> rw [hr] at hnext
  · obtain ⟨rest, ht, htl, hempty, rfl⟩ := hnext
    exact ⟨hempty, ht, htl⟩
  · obtain ⟨rest, ht, htl, hfound⟩ := hnext
    exact ⟨rest, hfound, ht, htl⟩
  · exact hnext

/-! ## Texts -/

theorem classify_ne_eof (word : String) : Vocabulary.standard.classify word ≠ .eof := by
  have hreserved : ∀ e ∈ Vocabulary.standard.lexemes.entries,
      Vocabulary.reservedKind? e.2 ≠ some .eof := by decide
  unfold Vocabulary.classify
  split
  · next hl =>
    rintro rfl
    exact hreserved _ (Table.mem_of_get? hl) rfl
  · decide
  · decide

theorem operatorKind?_ne_eof {lexeme : String} {kind : Kind}
    (h : Vocabulary.standard.operatorKind? lexeme = some kind) : kind ≠ .eof := by
  have hreserved : ∀ e ∈ Vocabulary.standard.lexemes.entries,
      Vocabulary.reservedKind? e.2 ≠ some .eof := by decide
  rintro rfl
  obtain ⟨op, hk, hmem⟩ := Vocabulary.exists_of_operatorKind? h
  exact hreserved _ hmem (congrArg some hk)

/-- In the standard language no lexeme is read as an `eof`. -/
theorem Spells.kind_ne_eof {raw rest : List Char} {kind : Kind} {value : String}
    (h : Spells .standard raw rest kind value) : kind ≠ .eof := by
  cases h with
  | word => exact classify_ne_eof _
  | number =>
    unfold numberKind
    split <;> decide
  | operator _ _ registered _ => exact operatorKind?_ne_eof registered

end Scanner

open Scanner

/-- `Partition v line cs tokens last`: the characters, of which the first is on this line, are the
lexemes of the tokens with blanks around them. The `eof` behind them is `last`. -/
inductive Partition (v : Vocabulary) : UInt32 → List Char → List Token → Token → Prop
  | nil {line : UInt32} {blanks : List Char} (blank : ∀ c ∈ blanks, Unicode.isBlank c = true) :
      Partition v line blanks [] (TokenStream.eofToken (lineBehind line blanks))
  | cons {line : UInt32} {blanks raw rest : List Char} {token last : Token} {tokens : List Token}
      (blank : ∀ c ∈ blanks, Unicode.isBlank c = true)
      (first : Spells v raw rest token.kind token.value)
      (placed : token.line = lineBehind line blanks)
      (others : Partition v token.line rest tokens last) :
      Partition v line (blanks ++ (raw ++ rest)) (token :: tokens) last

/-- The tokens that a scanner has yet to find are a partition of what it has yet to read, if no
lexeme counts as an `eof`. -/
theorem partition_of_upcoming {v : Vocabulary} {s : Scanner} {cs : List Char}
    {tokens : List Token} {last : Token}
    (hv : ∀ {raw rest kind value}, Spells v raw rest kind value → kind ≠ .eof)
    (hs : s.cursor.Holds cs) (hu : s.upcoming v = (tokens, .ok last)) :
    Partition v s.line cs tokens last := by
  fun_induction Scanner.upcoming v s generalizing cs tokens with
  | case1 => cases hu
  | case2 s t hnext =>
    obtain ⟨blanks, others, rfl, hblank, h⟩ := next?_of_holds (v := v) hs
    rw [hnext] at h
    obtain ⟨rfl, -, hline⟩ := h
    cases hu
    rw [List.append_nil, hline]
    exact .nil hblank
  | case3 s token t hnext ih =>
    obtain ⟨blanks, others, rfl, hblank, h⟩ := next?_of_holds (v := v) hs
    rw [hnext] at h
    obtain ⟨rest, ⟨raw, rfl, hspells, hline⟩, ht, htl⟩ := h
    rw [Upcoming.cons_of_ne (hv hspells)] at hu
    obtain ⟨rfl, hlast⟩ := Prod.mk.inj hu
    have hrest := ih ht (Prod.ext rfl hlast)
    rw [htl, ← hline] at hrest
    exact .cons hblank hspells hline hrest

/-- **A text that is tokenized is the lexemes of its tokens with blanks between them.** Only the
last token is an `eof`. -/
theorem partition_of_tokenize {text : String} {tokens : List Token} {stream : TokenStream}
    (h : TokenStream.tokenize .standard (.ofSource (.ofString text)) = .ok tokens stream) :
    ∃ found last, tokens = found ++ [last] ∧ last.kind = .eof ∧
      (∀ token ∈ found, token.kind ≠ .eof) ∧ Partition .standard 1 text.toList found last := by
  obtain ⟨last, hk, hu, ht⟩ := TokenStream.upcoming_of_tokenize h
  have hended := TokenStream.upcoming_ended .standard (.ofSource (.ofString text))
  rw [TokenStream.upcoming_of_none rfl] at hu hended
  rw [hu] at hended
  exact ⟨_, last, ht, hk, hended.inside,
    partition_of_upcoming Spells.kind_ne_eof (Cursor.holds_ofSource text) hu⟩

/-- The tokens of a text, without the `eof`; none if it is not tokenized. -/
def tokensOf (v : Vocabulary) (text : String) : Option (List Token) :=
  match TokenStream.tokenize v (.ofSource (.ofString text)) with
  | .ok tokens _ => some (tokens.filter (·.kind ≠ .eof))
  | .error _ _ => none

theorem exists_tokens {v : Vocabulary} {text : String} {found : List Token}
    (h : tokensOf v text = some found) :
    ∃ tokens stream, TokenStream.tokenize v (.ofSource (.ofString text)) = .ok tokens stream ∧
      found = tokens.filter (·.kind ≠ .eof) := by
  unfold tokensOf at h
  split at h
  · next tokens stream ht => exact ⟨tokens, stream, ht, (Option.some.inj h).symm⟩
  · cases h

theorem upcoming_of_tokensOf {v : Vocabulary} {text : String} {found : List Token}
    (h : tokensOf v text = some found) :
    ∃ last, (TokenStream.ofSource (.ofString text)).upcoming v = (found, .ok last) := by
  obtain ⟨tokens, stream, ht, rfl⟩ := exists_tokens h
  obtain ⟨last, hk, hu, heq⟩ := TokenStream.upcoming_of_tokenize ht
  have hended := TokenStream.upcoming_ended v (.ofSource (.ofString text))
  rw [hu] at hended
  refine ⟨last, hu.trans (Prod.ext ?_ rfl)⟩
  rw [heq, List.dropLast_concat, List.filter_append,
    List.filter_eq_self.mpr (by simpa using hended.inside)]
  simp [hk]

theorem partition_crowded : ∃ tokens stream,
    TokenStream.tokenize .standard (.ofSource (.ofString "_a**-.5e-3+1.;\n&&&1e2e3 ")) =
      .ok tokens stream ∧
    ∃ found last, tokens = found ++ [last] ∧ last.kind = .eof ∧
      (∀ token ∈ found, token.kind ≠ .eof) ∧
      Partition .standard 1 "_a**-.5e-3+1.;\n&&&1e2e3 ".toList found last := by
  obtain ⟨found, hfound, -⟩ := Option.map_eq_some_iff.mp <|
    show (tokensOf .standard "_a**-.5e-3+1.;\n&&&1e2e3 ").map (List.map Token.value) =
      some ["_a", "**", "-", "0.5e-3", "+", "1.0", ";", "&&", "&", "1e2", "e3"] by decide +kernel
  obtain ⟨tokens, stream, h, -⟩ := exists_tokens hfound
  exact ⟨tokens, stream, h, partition_of_tokenize h⟩

end ExprLang
