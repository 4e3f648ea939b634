import ExprLang.Proofs.Lexing.Scans
import ExprLang.Proofs.Stream.Lexeme

/-!
# Lexemes are read

Whatever a token can be spelled like is read again as this token, wherever it stands in a text that
delimits it.

* `Delimited`, `Separate`: what may follow a word or a number, and an operator.
* `Yields`: in front of a lexeme and what follows it the scanner reads just the lexeme.
* `yields_word`, `yields_number`, `yields_scientific`, `yields_operator`: the lexemes.
* `Lexes`, **`Lexes.upcoming`**: lexemes with blanks between them are the tokens of their text.
-/

namespace ExprLang

/-! ## Disjoint classes of characters -/

namespace Unicode

/-- No code point lies in a range of each list. -/
def disjointRanges (xs ys : List (Nat × Nat)) : Bool :=
  xs.all fun x => ys.all fun y => x.2 < y.1 || y.2 < x.1

theorem not_inRanges_of_disjoint {xs ys : List (Nat × Nat)} (h : disjointRanges xs ys = true)
    {n : Nat} (hx : inRanges xs n = true) : inRanges ys n = false := by
  simp only [disjointRanges, inRanges, List.all_eq_true, List.any_eq_true, Bool.or_eq_true,
    Bool.and_eq_true, decide_eq_true_eq, List.any_eq_false] at *
  obtain ⟨x, hx, hxn⟩ := hx
  intro y hy hyn
  have := h x hx y hy
  omega

theorem inRanges_of_isDigit {c : Char} (h : c.isDigit = true) :
    inRanges [(48, 57)] c.toNat = true := by
  have h : '0'.val ≤ c.val ∧ c.val ≤ '9'.val :=
    (Bool.and_eq_true_iff.mp h).imp of_decide_eq_true of_decide_eq_true
  simp only [UInt32.le_iff_toNat_le] at h
  simp only [inRanges, List.any_cons, List.any_nil, Bool.or_false, Bool.and_eq_true,
    decide_eq_true_eq]
  exact h

theorem inRanges_of_isAlphabetic {c : Char} (h : isAlphabetic c = true) :
    inRanges ((65, 90) :: (97, 122) :: alphabeticRanges) c.toNat = true := by
  unfold isAlphabetic at h
  unfold inRanges
  rw [List.any_cons, List.any_cons, Bool.or_eq_true, Bool.or_eq_true]
  split at h
  · have h : ('A'.val ≤ c.val ∧ c.val ≤ 'Z'.val) ∨ ('a'.val ≤ c.val ∧ c.val ≤ 'z'.val) :=
      (Bool.or_eq_true_iff.mp h).imp of_decide_eq_true fun h =>
        (Bool.and_eq_true_iff.mp h).imp of_decide_eq_true of_decide_eq_true
    simp only [UInt32.le_iff_toNat_le] at h
    simp only [Bool.and_eq_true, decide_eq_true_eq]
    exact h.imp id .inl
  · exact .inr (.inr h)

theorem not_isBlank_of_isAlphabetic {c : Char} (h : isAlphabetic c = true) :
    isBlank c = false :=
  not_inRanges_of_disjoint (by decide +kernel) (inRanges_of_isAlphabetic h)

theorem not_isBlank_of_isDigit {c : Char} (h : c.isDigit = true) : isBlank c = false :=
  not_inRanges_of_disjoint (by decide) (inRanges_of_isDigit h)

theorem not_isAlphabetic_of_isDigit {c : Char} (h : c.isDigit = true) :
    isAlphabetic c = false := by
  have hdisjoint :
      disjointRanges [(48, 57)] ((65, 90) :: (97, 122) :: alphabeticRanges) = true := by
    decide +kernel
  have hd := not_inRanges_of_disjoint hdisjoint (inRanges_of_isDigit h)
  rw [← Bool.not_eq_true] at hd ⊢
  exact fun ha => hd (inRanges_of_isAlphabetic ha)

end Unicode

namespace Scanner

open Cursor

variable {v : Vocabulary}

theorem not_isBlank_of_startsWord {c : Char} (h : startsWord c = true) :
    Unicode.isBlank c = false := by
  unfold startsWord at h
  rcases Bool.or_eq_true_iff.mp h with h | h
  · exact Unicode.not_isBlank_of_isAlphabetic h
  · obtain rfl := beq_iff_eq.mp h
    decide

theorem not_startsWord_of_isDigit {c : Char} (h : c.isDigit = true) : startsWord c = false := by
  unfold startsWord
  rw [Unicode.not_isAlphabetic_of_isDigit h, Bool.false_or, beq_eq_false_iff_ne]
  rintro rfl
  cases h

theorem continuesWord_of_isDigit {c : Char} (h : c.isDigit = true) : continuesWord c = true := by
  have hc : c.toNat < 0x80 := by
    have h : '0'.val ≤ c.val ∧ c.val ≤ '9'.val :=
      (Bool.and_eq_true_iff.mp h).imp of_decide_eq_true of_decide_eq_true
    simp only [UInt32.le_iff_toNat_le] at h
    change c.val.toNat < 128
    have : '9'.val.toNat = 57 := rfl
    omega
  simp [continuesWord, Unicode.isAlphanumeric, Unicode.isNumeric, hc, h]

/-! ## What the scanner reads -/

/-- What follows a word or a number ends it. -/
def Delimited (v : Vocabulary) (rest : List Char) : Prop :=
  ∀ c ∈ rest.head?, continuesWord c = false ∧ endsNumber v c = true

/-- What follows an operator does not extend it. -/
def Separate (v : Vocabulary) (value : String) (rest : List Char) : Prop :=
  ∀ c ∈ rest.head?, v.operatorKind? (value.push c) = none

/-- A token is spelled so. -/
def IsSpelled (kind : Kind) (value : String) (token : Token) : Prop :=
  token.kind = kind ∧ token.value = value

/-- In front of `value` and `rest` the scanner reads `value` as a token of the kind. -/
structure Yields (v : Vocabulary) (kind : Kind) (value : String) (rest : List Char) : Prop where
  visible : ∃ c cs, value.toList = c :: cs ∧ Unicode.isBlank c = false
  reads : ∀ c, Scans (lexeme v c) (value.toList ++ rest) (IsSpelled kind value) rest

theorem scans_orElse_first {first : ScanM (Option Token)} {second : ScanM Token}
    {cs rest : List Char} {P : Token → Prop}
    (h : Scans first cs (fun r => ∃ token, r = some token ∧ P token) rest) :
    Scans (orElse first second) cs P rest := by
  refine .bind h ?_
  rintro _ ⟨token, rfl, ht⟩
  exact .pure ht

theorem scans_orElse_second {first : ScanM (Option Token)} {second : ScanM Token}
    {cs rest : List Char} {P : Token → Prop} (h : Scans first cs (none = ·) cs)
    (h' : Scans second cs P rest) : Scans (orElse first second) cs P rest := by
  refine .bind h ?_
  rintro _ rfl
  exact h'

/-! ## Words -/

theorem scans_word?_none {cs : List Char} (h : ∀ c ∈ cs.head?, startsWord c = false) :
    Scans (word? v) cs (none = ·) cs := by
  refine .bind scans_peek ?_
  rintro _ rfl
  rw [if_neg]
  · exact .pure rfl
  · cases cs with
    | nil => exact nofun
    | cons c cs => exact Bool.not_eq_true _ ▸ h c rfl

theorem yields_word {c : Char} {cs rest : List Char} (starts : startsWord c = true)
    (continues : ∀ d ∈ cs, continuesWord d = true) (hr : Delimited v rest) :
    Yields v (v.classify (.ofList (c :: cs))) (.ofList (c :: cs)) rest := by
  refine ⟨⟨c, cs, String.toList_ofList, not_isBlank_of_startsWord starts⟩, fun _ => ?_⟩
  rw [String.toList_ofList]
  refine scans_orElse_first (.bind scans_peek ?_)
  rintro _ rfl
  rw [if_pos (show Option.any startsWord (c :: cs ++ rest).head? = true from starts)]
  refine .map (P := IsSpelled _ _) ?_ fun token h => ⟨token, rfl, h⟩
  have hall : ∀ d ∈ c :: cs, continuesWord d = true :=
    List.forall_mem_cons.mpr ⟨continuesWord_of_startsWord starts, continues⟩
  refine scans_get fun s => .bind (scans_takeWhile hall fun d hd => (hr d hd).1) ?_
  rintro _ rfl
  refine .bind scans_peek ?_
  rintro _ rfl
  cases rest with
  | nil => exact .pure ⟨rfl, rfl⟩
  | cons d rest =>
    have hends : endsWord v d = true := by
      have := (hr d rfl).2
      simp only [endsNumber, endsWord, Bool.or_eq_true, Bool.and_eq_true] at this ⊢
      exact this.imp .inl And.right
    simp only [List.head?_cons, if_pos hends]
    exact .pure ⟨rfl, rfl⟩

/-! ## Numbers -/

/-- A number that is written out: no run of digits is missing. -/
structure Numeral.Full (n : Numeral) : Prop where
  whole : n.whole ≠ ""
  fraction : n.fraction ≠ some ""

/-- The number with `0` for each missing run of digits. -/
def Numeral.filled (n : Numeral) : Numeral := ⟨orZero n.whole, n.fraction.map orZero⟩

theorem orZero_of_ne {digits : String} (h : digits ≠ "") : orZero digits = digits := by
  unfold orZero
  rw [if_neg (by simpa using h)]

theorem Digits.orZero {digits : String} (h : Digits digits) : Digits (orZero digits) := by
  unfold Scanner.orZero
  split
  · intro c hc
    obtain rfl : c = '0' := by simpa using hc
    rfl
  · exact h

namespace Numeral

variable {n : Numeral}

theorem full_filled (n : Numeral) : n.filled.Full := by
  refine ⟨orZero_ne_empty _, fun h => ?_⟩
  obtain ⟨digits, -, h⟩ := Option.map_eq_some_iff.mp h
  exact orZero_ne_empty _ h

theorem Decimal.filled (h : n.Decimal) : n.filled.Decimal := by
  refine ⟨h.whole.orZero, fun digits hd => ?_⟩
  obtain ⟨fraction, hf, rfl⟩ := Option.map_eq_some_iff.mp hd
  exact (h.fraction _ hf).orZero

theorem text_filled (n : Numeral) : n.filled.text = n.text := by
  obtain ⟨whole, _ | fraction⟩ := n
  · exact orZero_of_ne (orZero_ne_empty _)
  · simp only [filled, text, Option.map_some, orZero_of_ne (orZero_ne_empty _)]

theorem kind_filled (n : Numeral) : n.filled.kind = n.kind := by
  obtain ⟨whole, _ | fraction⟩ := n <;> rfl

theorem Full.toList_text (h : n.Full) :
    n.text.toList = n.whole.toList ++
      match n.fraction with
      | some digits => '.' :: digits.toList
      | none => [] := by
  obtain ⟨whole, _ | fraction⟩ := n
  · simp [text, orZero_of_ne h.whole]
  · have hf : fraction ≠ "" := fun he => h.fraction (congrArg some he)
    change (orZero whole ++ "." ++ orZero fraction).toList = _
    simp [orZero_of_ne h.whole, orZero_of_ne hf]

theorem Full.exists_digit (h : n.Full) (hd : n.Decimal) :
    ∃ c cs, n.text.toList = c :: cs ∧ c.isDigit = true := by
  have hne : n.whole.toList ≠ [] := fun he => h.whole (String.toList_eq_nil_iff.mp he)
  obtain ⟨c, cs, hc⟩ := List.exists_cons_of_ne_nil hne
  have hdigit := hd.whole c (hc ▸ List.mem_cons_self)
  rw [h.toList_text, hc]
  exact ⟨c, _, rfl, hdigit⟩

end Numeral

/-- What follows a number does not continue it. -/
def EndsNumeral (n : Numeral) (rest : List Char) : Prop :=
  Stops Char.isDigit rest ∧ (n.fraction = none → rest.head? ≠ some '.')

theorem scans_numeral? {n : Numeral} {rest : List Char} (hd : n.Decimal) (hf : n.Full)
    (hr : EndsNumeral n rest) : Scans numeral? (n.text.toList ++ rest) (some n = ·) rest := by
  rw [hf.toList_text]
  obtain ⟨whole, _ | fraction⟩ := n
  · have hw : whole.isEmpty = false := by simpa using hf.whole
    rw [List.append_nil]
    refine .bind (scans_takeWhile hd.whole hr.1) ?_
    rintro _ rfl
    refine .bind (scans_accept_other (hr.2 rfl)) ?_
    rintro _ rfl
    rw [if_neg (by decide), String.ofList_toList, if_neg (by rw [hw]; decide)]
    exact .pure rfl
  · rw [List.append_assoc, List.cons_append]
    refine .bind (scans_takeWhile hd.whole ?_) ?_
    · rintro c ⟨⟩
      rfl
    · rintro _ rfl
      refine .bind scans_accept ?_
      rintro _ rfl
      rw [if_pos rfl]
      refine .bind (scans_takeWhile (hd.fraction _ rfl) hr.1) ?_
      rintro _ rfl
      rw [String.ofList_toList, String.ofList_toList]
      exact .pure rfl

/-- Neither a digit nor a point comes next. -/
def StartsNoNumber (cs : List Char) : Prop :=
  Stops Char.isDigit cs ∧ cs.head? ≠ some '.'

theorem scans_numeral?_none {cs : List Char} (h : StartsNoNumber cs) :
    Scans numeral? cs (none = ·) cs := by
  refine .bind (scans_takeWhile (List.forall_mem_nil _) h.1) ?_
  rintro _ rfl
  refine .bind (scans_accept_other h.2) ?_
  rintro _ rfl
  exact .pure rfl

theorem scans_number?_none {cs : List Char} (h : StartsNoNumber cs) :
    Scans (number? v) cs (none = ·) cs := by
  refine scans_get fun s => .bind (scans_numeral?_none h) ?_
  rintro _ rfl
  exact .pure rfl

theorem yields_of_number {kind : Kind} {value : String} {rest : List Char} {m : Numeral}
    (tail : List Char) (hd : m.Decimal) (hf : m.Full) (hr : EndsNumeral m tail)
    (hv : value.toList ++ rest = m.text.toList ++ tail)
    (hhead : value.toList.head? = m.text.toList.head?)
    (h : ∀ line, Scans (numberToken v line m) tail (IsSpelled kind value) rest) :
    Yields v kind value rest := by
  obtain ⟨c, cs, hc, hdigit⟩ := hf.exists_digit hd
  rw [hc, List.head?_cons] at hhead
  obtain ⟨others, ho⟩ := List.head?_eq_some_iff.mp hhead
  refine ⟨⟨c, others, ho, Unicode.not_isBlank_of_isDigit hdigit⟩, fun _ => ?_⟩
  refine scans_orElse_second (scans_word?_none ?_) (scans_orElse_first ?_)
  · rw [ho]
    rintro _ ⟨⟩
    exact not_startsWord_of_isDigit hdigit
  · rw [hv]
    refine scans_get fun s => .bind (scans_numeral? hd hf hr) ?_
    rintro _ rfl
    exact .map (h _) fun token ht => ⟨token, rfl, ht⟩

theorem Delimited.endsNumeral {rest : List Char} (h : Delimited v rest) (n : Numeral) :
    EndsNumeral n rest := by
  refine ⟨fun c hc => ?_, fun _ hp => ?_⟩
  · rw [← Bool.not_eq_true]
    intro hd
    have := (h c hc).1
    rw [continuesWord_of_isDigit hd] at this
    cases this
  · have := (h '.' hp).2
    simp [endsNumber, Unicode.isBlank, Unicode.inRanges] at this

theorem yields_number {n : Numeral} {rest : List Char} (hd : n.Decimal) (hr : Delimited v rest) :
    Yields v n.kind n.text rest := by
  rw [← n.text_filled, ← n.kind_filled]
  refine yields_of_number rest hd.filled n.full_filled (hr.endsNumeral _) rfl rfl fun line => ?_
  have he : rest.head? ≠ some 'e' := fun h => absurd (hr 'e' h).1 (by decide)
  refine .bind (scans_accept_other he) ?_
  rintro _ rfl
  rw [if_neg (by decide)]
  refine .bind scans_peek ?_
  rintro _ rfl
  rw [if_pos]
  · exact .pure ⟨rfl, rfl⟩
  · cases rest with
    | nil => rfl
    | cons c rest => exact (hr c rfl).2

theorem scans_sign {mark : String} {cs : List Char} (hs : mark ∈ exponentSigns)
    (hcs : ∀ c ∈ cs.head?, c.isDigit = true) : Scans sign (mark.toList ++ cs) (mark = ·) cs := by
  have hne : ∀ c, c.isDigit = false → cs.head? ≠ some c := by
    intro c hc h
    rw [hcs c h] at hc
    cases hc
  simp only [exponentSigns, List.mem_cons, List.not_mem_nil, or_false] at hs
  rcases hs with rfl | rfl | rfl
  · refine .bind (scans_accept_other (hne '+' rfl)) ?_
    rintro _ rfl
    refine .bind (scans_accept_other (hne '-' rfl)) ?_
    rintro _ rfl
    exact .pure rfl
  · have hplus : Scans (accept '+') ('+' :: cs) (true = ·) cs := scans_accept
    refine .bind hplus ?_
    rintro _ rfl
    exact .pure rfl
  · have hplus : Scans (accept '+') ('-' :: cs) (false = ·) ('-' :: cs) :=
      scans_accept_other (by simp)
    have hminus : Scans (accept '-') ('-' :: cs) (true = ·) cs := scans_accept
    refine .bind hplus ?_
    rintro _ rfl
    refine .bind hminus ?_
    rintro _ rfl
    exact .pure rfl

/-- Numbers with an exponent. Nothing but a digit or a point behind the exponent can go on with it.
-/
theorem yields_scientific {mantissa exponent : Numeral} {sign : String} {rest : List Char}
    (hm : mantissa.Decimal) (hs : sign ∈ exponentSigns) (hx : exponent.Decimal)
    (hr : Delimited v rest) :
    Yields v .floatLiteral (mantissa.text ++ "e" ++ sign ++ exponent.text) rest := by
  rw [← mantissa.text_filled, ← exponent.text_filled]
  have hm' := mantissa.full_filled
  refine yields_of_number ('e' :: (sign.toList ++ (exponent.filled.text.toList ++ rest)))
    hm.filled hm' ⟨?_, fun _ => by simp⟩ (by simp) ?_ fun line => ?_
  · rintro _ ⟨⟩
    rfl
  · obtain ⟨c, cs, hc, -⟩ := hm'.exists_digit hm.filled
    simp [hc]
  · refine .bind scans_accept ?_
    rintro _ rfl
    rw [if_pos rfl]
    have hdigit : ∀ c ∈ (exponent.filled.text.toList ++ rest).head?, c.isDigit = true := by
      obtain ⟨c, cs, hc, hdigit⟩ := exponent.full_filled.exists_digit hx.filled
      rw [hc]
      rintro _ ⟨⟩
      exact hdigit
    refine .bind (scans_sign hs hdigit) ?_
    rintro _ rfl
    refine .bind (scans_numeral? hx.filled exponent.full_filled (hr.endsNumeral _)) ?_
    rintro _ rfl
    exact .pure ⟨rfl, rfl⟩

/-! ## Operators -/

/-- Behind `front`, each longer beginning of the lexeme is registered. -/
def grows (v : Vocabulary) (front : String) : List Char → Bool
  | [] => true
  | c :: cs => (v.operatorKind? (front.push c)).isSome && grows v (front.push c) cs

theorem foldFront_operatorStep {front : String} {cs rest : List Char} {kind? : Option Kind}
    (hk : cs ≠ [] ∨ kind? = v.operatorKind? front) (hg : grows v front cs = true)
    (hr : Separate v (front ++ .ofList cs) rest) :
    foldFront (operatorStep v) (front, kind?) (cs ++ rest) =
      ((front ++ .ofList cs, v.operatorKind? (front ++ .ofList cs)), rest) := by
  induction cs generalizing front kind? with
  | nil =>
    obtain rfl := hk.resolve_left fun h => h rfl
    rw [String.ofList_nil, String.append_empty] at hr ⊢
    cases rest with
    | nil => rfl
    | cons c rest => simp [foldFront, operatorStep, hr c rfl]
  | cons c cs ih =>
    obtain ⟨hsome, hg⟩ := Bool.and_eq_true_iff.mp hg
    obtain ⟨kind, hkind⟩ := Option.isSome_iff_exists.mp hsome
    have hpush : front ++ String.ofList (c :: cs) = front.push c ++ String.ofList cs :=
      String.toList_inj.mp (by simp)
    rw [hpush] at hr ⊢
    rw [List.cons_append, foldFront]
    simp only [operatorStep, hkind, Option.map_some]
    exact ih (.inr hkind.symm) hg hr

/-- A character that starts an operator only. -/
def startsOperator (c : Char) : Bool :=
  !Unicode.isBlank c && !startsWord c && !c.isDigit && c != '.'

theorem yields_operator {kind : Kind} {value : String} {rest : List Char}
    (hk : v.operatorKind? value = some kind) (hg : grows v "" value.toList = true)
    (hs : value.toList.head?.any startsOperator = true) (hr : Separate v value rest) :
    Yields v kind value rest := by
  obtain ⟨c, hc, hs⟩ := (Option.any_eq_true _ _).mp hs
  obtain ⟨cs, hcs⟩ := List.head?_eq_some_iff.mp hc
  simp only [startsOperator, Bool.and_eq_true, Bool.not_eq_true', bne_iff_ne] at hs
  obtain ⟨⟨⟨hblank, hword⟩, hdigit⟩, hpoint⟩ := hs
  refine ⟨⟨c, cs, hcs, hblank⟩, fun _ => ?_⟩
  refine scans_orElse_second (scans_word?_none ?_) (scans_orElse_second (scans_number?_none ?_)
    (scans_orElse_first (scans_get fun s => ?_)))
  · rw [hcs]
    rintro _ ⟨⟩
    exact hword
  · rw [hcs]
    refine ⟨?_, fun h => hpoint (Option.some.inj h)⟩
    rintro _ ⟨⟩
    exact hdigit
  · have hfold := scans_foldWhile (operatorStep v) ("", none) (value.toList ++ rest)
    have hne : value.toList ≠ [] := hcs ▸ List.cons_ne_nil _ _
    have hv : "" ++ String.ofList value.toList = value := by simp
    rw [foldFront_operatorStep (.inl hne) hg (hv.symm ▸ hr), hv, hk] at hfold
    refine .bind hfold ?_
    rintro _ rfl
    exact .pure ⟨_, rfl, rfl, rfl⟩

end Scanner

/-! ## Texts -/

/-- `Lexes v cs lexemes`: the characters are these lexemes, with blanks between them. -/
inductive Lexes (v : Vocabulary) : List Char → List (Kind × String) → Prop
  | nil {blanks : List Char} (blank : ∀ c ∈ blanks, Unicode.isBlank c = true) : Lexes v blanks []
  | cons {blanks rest : List Char} {kind : Kind} {value : String} {lexemes : List (Kind × String)}
      (blank : ∀ c ∈ blanks, Unicode.isBlank c = true) (first : Scanner.Yields v kind value rest)
      (visible : kind ≠ .eof) (more : Lexes v rest lexemes) :
      Lexes v (blanks ++ (value.toList ++ rest)) ((kind, value) :: lexemes)

namespace Lexes

open Scanner

variable {v : Vocabulary}

theorem blank {c : Char} {cs : List Char} {lexemes : List (Kind × String)}
    (h : Lexes v cs lexemes) (hc : Unicode.isBlank c = true) : Lexes v (c :: cs) lexemes := by
  cases h with
  | nil hb => exact .nil (List.forall_mem_cons.mpr ⟨hc, hb⟩)
  | cons hb first visible more =>
    exact .cons (List.forall_mem_cons.mpr ⟨hc, hb⟩) first visible more

theorem lexeme {kind : Kind} {value : String} {rest : List Char} {lexemes : List (Kind × String)}
    (h : Lexes v rest lexemes) (first : Yields v kind value rest) (visible : kind ≠ .eof) :
    Lexes v (value.toList ++ rest) ((kind, value) :: lexemes) :=
  .cons (List.forall_mem_nil _) first visible h

/-- **Lexemes with blanks between them are the tokens of their text.** -/
theorem upcoming {cs : List Char} {lexemes : List (Kind × String)} (h : Lexes v cs lexemes)
    {s : Scanner} (hs : s.cursor.Holds cs) :
    ∃ tokens last, s.upcoming v = (tokens, .ok last) ∧ tokens.map Token.lexeme = lexemes := by
  induction h generalizing s with
  | @nil blanks hb =>
    have hnext : Scans (next? v) (blanks ++ []) (none = ·) [] := by
      refine .bind (scans_skipBlanks hb nofun) fun _ _ => .bind scans_peek ?_
      rintro _ rfl
      exact .pure rfl
    obtain ⟨_, t, ht, rfl, -⟩ := hnext s ((List.append_nil blanks).symm ▸ hs)
    refine ⟨[], TokenStream.eofToken t.line, ?_, rfl⟩
    rw [Scanner.upcoming]
    split <;> simp_all
  | @cons blanks rest kind value lexemes hb first visible _ ih =>
    obtain ⟨c, cs, hc, hblank⟩ := first.visible
    have hnext : Scans (next? v) (blanks ++ (value.toList ++ rest))
        (fun r => ∃ token, r = some token ∧ IsSpelled kind value token) rest := by
      refine .bind (scans_skipBlanks hb ?_) fun _ _ => .bind scans_peek ?_
      · rw [hc]
        rintro _ ⟨⟩
        exact hblank
      · rintro _ rfl
        rw [hc]
        exact .map (hc ▸ first.reads c) fun token ht => ⟨token, rfl, ht⟩
    obtain ⟨_, t, ht, ⟨token, rfl, rfl, rfl⟩, hrest⟩ := hnext s hs
    obtain ⟨tokens, last, hu, rfl⟩ := ih hrest
    refine ⟨token :: tokens, last, ?_, rfl⟩
    have hcons : s.upcoming v = Upcoming.cons token (t.upcoming v) := by
      rw [Scanner.upcoming]
      split <;> simp_all
    rw [hcons, hu, Upcoming.cons_of_ne visible]

end Lexes

end ExprLang
