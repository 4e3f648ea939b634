import Mathlib.Tactic.SplitIfs
import ExprLang.Proofs.Stream.Upcoming

/-!
# Lexemes and their kinds

What tokens of a source can look like.

* `Lexeme`: words with the kinds that the vocabulary gives them, numbers with and without an
  exponent, and registered operators.
* `Spelled`: a token spelled as one of these; `spelled_of_next?`: so for what a scanner finds.
* **`lexeme_of_upcoming`**: so for every token of a stream.
* `Classified`: kind and lexeme fit each other, whatever the lexeme looks like.
-/

namespace ExprLang

/-- The kind and the lexeme of a token. -/
def Token.lexeme (token : Token) : Kind × String := (token.kind, token.value)

namespace Scanner

/-- A text of digits, perhaps of none. -/
def Digits (text : String) : Prop := ∀ c ∈ text.toList, c.isDigit = true

/-- A number of digits only. -/
structure Numeral.Decimal (n : Numeral) : Prop where
  whole : Digits n.whole
  fraction : ∀ digits, n.fraction = some digits → Digits digits

/-- The signs of an exponent, of which the first is none. -/
def exponentSigns : List String := ["", "+", "-"]

/-- `Lexeme v kind value`: tokens of a kind may be spelled so. -/
inductive Lexeme (v : Vocabulary) : Kind → String → Prop
  | word {c : Char} {cs : List Char} (starts : startsWord c = true)
      (continues : ∀ d ∈ cs, continuesWord d = true) :
      Lexeme v (v.classify (.ofList (c :: cs))) (.ofList (c :: cs))
  | number {n : Numeral} (digits : n.Decimal) : Lexeme v n.kind n.text
  | scientific {mantissa exponent : Numeral} {sign : String} (digits : mantissa.Decimal)
      (signed : sign ∈ exponentSigns) (power : exponent.Decimal) :
      Lexeme v .floatLiteral (mantissa.text ++ "e" ++ sign ++ exponent.text)
  | operator {kind : Kind} {value : String} (registered : v.operatorKind? value = some kind) :
      Lexeme v kind value

/-- A token is spelled as its kind allows, and not by nothing. -/
structure Spelled (v : Vocabulary) (token : Token) : Prop where
  lexeme : Lexeme v token.kind token.value
  nonempty : token.value ≠ ""

end Scanner

/-- The kind of a token is one that its lexeme can have. -/
def Classified (v : Vocabulary) (token : Token) : Prop :=
  token.kind = v.classify token.value ∨ v.operatorKind? token.value = some token.kind ∨
    token.kind = .intLiteral ∨ token.kind = .floatLiteral

namespace Cursor

variable {β : Type} {step : β → Char → Option β} {P : β → Prop}

theorem invariant_foldFront (hstep : ∀ b c b', P b → step b c = some b' → P b') {b b' : β}
    {cs rest : List Char} (hb : P b) (h : foldFront step b cs = (b', rest)) : P b' := by
  induction cs generalizing b with
  | nil =>
    cases h
    exact hb
  | cons c cs ih =>
    rw [foldFront] at h
    split at h
    · next hs => exact ih (hstep _ _ _ hb hs) h
    · cases h
      exact hb

theorem invariant_foldWhile (hstep : ∀ b c b', P b → step b c = some b' → P b') {b : β}
    (hb : P b) (c : Cursor) : P (c.foldWhile step b).value := by
  fun_induction foldWhile step b c with
  | case1 b c b' ch rest h => exact invariant_foldFront hstep hb h
  | case2 b c b' h => exact invariant_foldFront hstep hb h
  | case3 b c b' h => exact invariant_foldFront hstep hb h
  | case4 b c b' h => exact invariant_foldFront hstep hb h
  | case5 b c b' h _ _ _ _ ih => exact ih (invariant_foldFront hstep hb h)

end Cursor

namespace Scanner

variable {v : Vocabulary}

theorem invariant_of_foldWhile {β : Type} {step : β → Char → Option β} {P : β → Prop}
    (hstep : ∀ b c b', P b → step b c = some b' → P b') {b r : β} {s t : Scanner} (hb : P b)
    (h : foldWhile step b s = .ok r t) : P r :=
  (foldWhile_eq_ok h).1 ▸ Cursor.invariant_foldWhile hstep hb s.cursor

/-! ## Words -/

theorem takes_push {p : Char → Bool} {front text text' : String} {c : Char}
    (ht : ∃ cs, text = front ++ String.ofList cs ∧ ∀ d ∈ cs, p d = true)
    (h : (if p c then some (text.push c) else none) = some text') :
    ∃ cs, text' = front ++ String.ofList cs ∧ ∀ d ∈ cs, p d = true := by
  obtain ⟨cs, rfl, hcs⟩ := ht
  split_ifs at h with hc
  cases h
  refine ⟨cs ++ [c], String.toList_inj.mp (by simp), ?_⟩
  exact List.forall_mem_append.mpr ⟨hcs, List.forall_mem_singleton.mpr hc⟩

theorem takes_of_takeWhile {p : Char → Bool} {s t : Scanner} {text : String}
    (h : takeWhile p s = .ok text t) : ∀ c ∈ text.toList, p c = true := by
  obtain ⟨cs, rfl, hcs⟩ := invariant_of_foldWhile
    (P := fun text => ∃ cs, text = "" ++ String.ofList cs ∧ ∀ d ∈ cs, p d = true)
    (fun _ _ _ => takes_push) ⟨[], rfl, nofun⟩ h
  simpa using hcs

theorem takes_of_takeWhile_head {p : Char → Bool} {s t : Scanner} {text : String} {c : Char}
    (hp : s.cursor.pending.head? = some c) (hc : p c = true) (h : takeWhile p s = .ok text t) :
    ∃ cs, text = String.ofList (c :: cs) ∧ ∀ d ∈ cs, p d = true := by
  obtain ⟨rest, hp⟩ := List.head?_eq_some_iff.mp hp
  have hv := (foldWhile_eq_ok h).1
  rw [Cursor.foldWhile_of_head hp (if_pos hc)] at hv
  obtain ⟨cs, hcs, hall⟩ := hv ▸ Cursor.invariant_foldWhile
    (P := fun text => ∃ cs, text = String.push "" c ++ String.ofList cs ∧ ∀ d ∈ cs, p d = true)
    (fun _ _ _ => takes_push) ⟨[], by simp, nofun⟩ _
  exact ⟨cs, String.toList_inj.mp (by simp [hcs]), hall⟩

theorem spelled_of_wordToken {s t : Scanner} {token : Token} {c : Char}
    (hp : s.cursor.pending.head? = some c) (hc : startsWord c = true)
    (h : wordToken v s = .ok token t) : Spelled v token := by
  obtain ⟨_, _, hg, h⟩ := bind_eq_ok_iff.mp h
  obtain ⟨rfl, rfl⟩ := get_eq_ok_iff.mp hg
  obtain ⟨word, _, hw, h⟩ := bind_eq_ok_iff.mp h
  obtain ⟨cs, rfl, hcs⟩ := takes_of_takeWhile_head hp (continuesWord_of_startsWord hc) hw
  have hne : String.ofList (c :: cs) ≠ "" := by simp
  obtain ⟨r, u, _, h⟩ := bind_eq_ok_iff.mp h
  cases r with
  | none =>
    obtain ⟨rfl, -⟩ := pure_eq_ok_iff.mp h
    exact ⟨.word hc hcs, hne⟩
  | some d =>
    by_cases hd : endsWord v d = true
    · simp only [if_pos hd] at h
      obtain ⟨rfl, -⟩ := pure_eq_ok_iff.mp h
      exact ⟨.word hc hcs, hne⟩
    · simp only [if_neg hd] at h
      exact absurd h throw_ne_ok

theorem spelled_of_word? {s t : Scanner} {token : Token} (h : word? v s = .ok (some token) t) :
    Spelled v token := by
  obtain ⟨r, u, hp, h⟩ := bind_eq_ok_iff.mp h
  split at h
  · next hc =>
    obtain ⟨found, hw, hf⟩ := map_eq_ok_iff.mp h
    cases hf
    rw [← head?_of_peek hp] at hc
    obtain ⟨c, hhead, hc⟩ := (Option.any_eq_true _ _).mp hc
    exact spelled_of_wordToken hhead hc hw
  · cases (pure_eq_ok_iff.mp h).1

/-! ## Numbers -/

theorem decimal_of_numeral? {s t : Scanner} {n : Numeral} (h : numeral? s = .ok (some n) t) :
    n.Decimal := by
  obtain ⟨whole, u, hw, h⟩ := bind_eq_ok_iff.mp h
  obtain ⟨point, w, _, h⟩ := bind_eq_ok_iff.mp h
  split_ifs at h
  · obtain ⟨fraction, _, hf, h⟩ := bind_eq_ok_iff.mp h
    cases (pure_eq_ok_iff.mp h).1
    refine ⟨takes_of_takeWhile hw, fun digits hd => ?_⟩
    cases hd
    exact takes_of_takeWhile hf
  · cases (pure_eq_ok_iff.mp h).1
  · cases (pure_eq_ok_iff.mp h).1
    exact ⟨takes_of_takeWhile hw, nofun⟩

theorem mem_of_sign {s t : Scanner} {text : String} (h : sign s = .ok text t) :
    text ∈ exponentSigns := by
  obtain ⟨plus, _, _, h⟩ := bind_eq_ok_iff.mp h
  split_ifs at h
  · cases (pure_eq_ok_iff.mp h).1
    decide
  · obtain ⟨minus, _, _, h⟩ := bind_eq_ok_iff.mp h
    split_ifs at h <;> cases (pure_eq_ok_iff.mp h).1 <;> decide

theorem orZero_ne_empty (digits : String) : orZero digits ≠ "" := by
  unfold orZero
  split
  · decide
  · next h => exact fun he => h (String.isEmpty_iff.mpr he)

theorem Numeral.text_ne_empty (n : Numeral) : n.text ≠ "" := by
  unfold text
  split
  · simp [toString]
  · exact orZero_ne_empty _

theorem spelled_of_numberToken {line : UInt32} {mantissa : Numeral} {s t : Scanner} {token : Token}
    (hm : mantissa.Decimal) (h : numberToken v line mantissa s = .ok token t) :
    Spelled v token := by
  obtain ⟨b, u, _, h⟩ := bind_eq_ok_iff.mp h
  split_ifs at h
  · obtain ⟨signed, _, hs, h⟩ := bind_eq_ok_iff.mp h
    obtain ⟨r, _, hx, h⟩ := bind_eq_ok_iff.mp h
    cases r with
    | none => exact absurd h throw_ne_ok
    | some exponent =>
      obtain ⟨rfl, -⟩ := pure_eq_ok_iff.mp h
      exact ⟨.scientific hm (mem_of_sign hs) (decimal_of_numeral? hx), by simp⟩
  · obtain ⟨r, w, _, h⟩ := bind_eq_ok_iff.mp h
    split_ifs at h
    · obtain ⟨rfl, -⟩ := pure_eq_ok_iff.mp h
      exact ⟨.number hm, mantissa.text_ne_empty⟩
    · exact absurd h throw_ne_ok

theorem spelled_of_number? {s t : Scanner} {token : Token}
    (h : number? v s = .ok (some token) t) : Spelled v token := by
  obtain ⟨_, _, _, h⟩ := bind_eq_ok_iff.mp h
  obtain ⟨r, _, hm, h⟩ := bind_eq_ok_iff.mp h
  cases r with
  | none => cases (pure_eq_ok_iff.mp h).1
  | some mantissa =>
    obtain ⟨found, hn, hf⟩ := map_eq_ok_iff.mp h
    cases hf
    exact spelled_of_numberToken (decimal_of_numeral? hm) hn

/-! ## Operators -/

/-- What has been extended so far is registered and not empty, if anything has been. -/
theorem operatorKind?_of_foldWhile {s t : Scanner} {lexeme : String} {kind : Kind}
    (h : foldWhile (operatorStep v) ("", none) s = .ok (lexeme, some kind) t) :
    v.operatorKind? lexeme = some kind ∧ lexeme ≠ "" := by
  refine invariant_of_foldWhile (P := fun r => ∀ kind, r.2 = some kind →
    v.operatorKind? r.1 = some kind ∧ r.1 ≠ "") ?_ ?_ h kind rfl
  · intro r c r' _ hr kind hk
    obtain ⟨found, hf, rfl⟩ := Option.map_eq_some_iff.mp hr
    cases hk
    exact ⟨hf, by simp⟩
  · intro kind hk
    cases hk

theorem spelled_of_operator? {s t : Scanner} {token : Token}
    (h : operator? v s = .ok (some token) t) : Spelled v token := by
  obtain ⟨_, _, _, h⟩ := bind_eq_ok_iff.mp h
  obtain ⟨⟨lexeme, kind?⟩, u, hf, h⟩ := bind_eq_ok_iff.mp h
  obtain ⟨hr, -⟩ := pure_eq_ok_iff.mp h
  obtain ⟨kind, rfl, rfl⟩ := Option.map_eq_some_iff.mp hr
  obtain ⟨hregistered, hne⟩ := operatorKind?_of_foldWhile hf
  exact ⟨.operator hregistered, hne⟩

/-! ## Streams -/

theorem spelled_of_orElse {first : ScanM (Option Token)} {second : ScanM Token}
    (hf : ∀ s t token, first s = .ok (some token) t → Spelled v token)
    (hs : ∀ s t token, second s = .ok token t → Spelled v token) {s t : Scanner} {token : Token}
    (h : orElse first second s = .ok token t) : Spelled v token := by
  obtain ⟨r, u, hx, h⟩ := bind_eq_ok_iff.mp h
  cases r with
  | none => exact hs _ _ _ h
  | some found =>
    obtain ⟨rfl, -⟩ := pure_eq_ok_iff.mp h
    exact hf _ _ _ hx

theorem spelled_of_next? {s t : Scanner} {token : Token}
    (h : next? v s = .ok (some token) t) : Spelled v token := by
  obtain ⟨_, _, _, h⟩ := bind_eq_ok_iff.mp h
  obtain ⟨r, _, _, h⟩ := bind_eq_ok_iff.mp h
  cases r with
  | none => cases (pure_eq_ok_iff.mp h).1
  | some c =>
    obtain ⟨found, hl, hf⟩ := map_eq_ok_iff.mp h
    cases hf
    refine spelled_of_orElse (fun _ _ _ => spelled_of_word?) ?_ hl
    refine fun _ _ _ => spelled_of_orElse (fun _ _ _ => spelled_of_number?) ?_
    refine fun _ _ _ => spelled_of_orElse (fun _ _ _ => spelled_of_operator?) ?_
    intro s t token h
    obtain ⟨_, _, _, h⟩ := bind_eq_ok_iff.mp h
    exact absurd h throw_ne_ok

/-- **Every token of a source is spelled as its kind allows.** -/
theorem lexeme_of_upcoming (s : Scanner) :
    ∀ token ∈ (s.upcoming v).1, Lexeme v token.kind token.value := by
  fun_induction Scanner.upcoming v s with
  | case1 | case2 => exact List.forall_mem_nil _
  | case3 s token t h ih =>
    by_cases hk : token.kind = .eof
    · rw [Upcoming.cons_of_eof hk]
      exact List.forall_mem_nil _
    · rw [Upcoming.cons_of_ne hk]
      exact List.forall_mem_cons.mpr ⟨(spelled_of_next? h).lexeme, ih⟩

theorem Lexeme.classified {token : Token} (h : Lexeme v token.kind token.value) :
    Classified v token := by
  obtain ⟨kind, value, line⟩ := token
  cases h with
  | word => exact .inl rfl
  | @number n =>
    refine .inr (.inr ?_)
    change n.kind = _ ∨ n.kind = _
    unfold Numeral.kind
    split_ifs
    · exact .inr rfl
    · exact .inl rfl
  | scientific => exact .inr (.inr (.inr rfl))
  | operator registered => exact .inr (.inl registered)

theorem classified_of_upcoming (s : Scanner) :
    ∀ token ∈ (s.upcoming v).1, Classified v token :=
  fun token h => (lexeme_of_upcoming s token h).classified

end Scanner

end ExprLang
