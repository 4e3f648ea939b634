import ExprLang.Journal
import ExprLang.Progress
import ExprLang.Token.Scanner

/-!
# Token streams

A token stream scans tokens on demand and keeps at most one ahead. Behind the last lexeme it yields
`eof` tokens without end. Every lexeme scanned is entered in the journal.

* `lookahead`, `consume`: the next token, left in place or taken.
* `tokenize`: all tokens of a source, up to and including the first of kind `eof`.
-/

namespace ExprLang

/-- A scanner, the token scanned ahead, and the journal of the run. -/
structure TokenStream where
  scanner : Scanner
  ahead : Option Token
  journal : Journal

/-- A token action; a failure keeps the stream where it left it. -/
abbrev TokenM := EStateM Failure TokenStream

namespace TokenStream

/-- The token stream of a source, with nothing scanned yet. -/
def ofSource (s : Source) : TokenStream := ⟨.ofSource s, none, []⟩

/-- An upper bound on the characters left, a token ahead counting as one unless it is an `eof`. -/
def remaining (s : TokenStream) : Nat :=
  s.scanner.cursor.remaining + if s.ahead.any (·.kind != .eof) then 1 else 0

/-- Enters an event in the journal. -/
def note (e : Event) (s : TokenStream) : TokenStream := { s with journal := e :: s.journal }

/-- The token that stands for the end of the source. -/
def eofToken (line : UInt32) : Token := ⟨.eof, "EOF", line⟩

/-- Scans a token. -/
def scan (v : Vocabulary) : TokenM Token := fun s =>
  match Scanner.next? v s.scanner with
  | .ok (some token) scanner => .ok token (note (.scanned token) { s with scanner := scanner })
  | .ok none scanner => .ok (eofToken scanner.line) { s with scanner := scanner }
  | .error e scanner => .error e { s with scanner := scanner }

/-- The next token, left in place. -/
def lookahead (v : Vocabulary) : TokenM Token := fun s =>
  match s.ahead with
  | some token => .ok token s
  | none =>
    match scan v s with
    | .ok token t => .ok token { t with ahead := some token }
    | .error e t => .error e t

/-- The next token, taken. -/
def consume (v : Vocabulary) : TokenM Token := fun s =>
  match s.ahead with
  | some token => .ok token { s with ahead := none }
  | none => scan v s

/-! ## Progress -/

theorem scan_keeps_scanner {v : Vocabulary} {s t : TokenStream} {token : Token}
    (h : scan v s = .ok token t) :
    t.ahead = s.ahead ∧ t.scanner.remaining ≤ s.scanner.remaining ∧
      (token.kind ≠ .eof → t.scanner.remaining < s.scanner.remaining) := by
  simp only [scan] at h
  split at h
  · next hn =>
    cases h
    exact ⟨rfl, Scanner.next?_keeps v _ _ _ hn, fun _ => Scanner.next?_shrinks v _ _ _ hn rfl⟩
  · next hn =>
    cases h
    exact ⟨rfl, Scanner.next?_keeps v _ _ _ hn, fun hk => absurd rfl hk⟩
  · cases h

theorem lookahead_eq_ok {v : Vocabulary} {s t : TokenStream} {token : Token}
    (h : lookahead v s = .ok token t) : t.ahead = some token ∧ t.remaining ≤ s.remaining := by
  cases ha : s.ahead with
  | some found =>
    simp only [lookahead, ha] at h
    cases h
    exact ⟨ha, Nat.le_refl _⟩
  | none =>
    simp only [lookahead, ha] at h
    split at h
    · next found u hs =>
      cases h
      obtain ⟨-, hle, hlt⟩ := scan_keeps_scanner hs
      refine ⟨rfl, ?_⟩
      simp only [Scanner.remaining] at hle hlt
      simp only [remaining, ha, Option.any_some, Option.any_none]
      by_cases hk : token.kind = .eof
      · simp only [hk, bne_self_eq_false, Bool.false_eq_true, if_false]
        omega
      · have := hlt hk
        split <;> omega
    · cases h

theorem lookahead_keeps (v : Vocabulary) : Keeps remaining (lookahead v) :=
  fun _ _ _ h => (lookahead_eq_ok h).2

theorem consume_eq_ok {v : Vocabulary} {s t : TokenStream} {token : Token}
    (h : consume v s = .ok token t) :
    t.remaining ≤ s.remaining ∧ (token.kind ≠ .eof → t.remaining < s.remaining) := by
  cases ha : s.ahead with
  | some found =>
    simp only [consume, ha] at h
    cases h
    simp only [remaining, ha, Option.any_some, Option.any_none, Bool.false_eq_true, if_false]
    exact ⟨by omega, fun hk => by simp [hk]⟩
  | none =>
    simp only [consume, ha] at h
    obtain ⟨ht, hle, hlt⟩ := scan_keeps_scanner h
    simp only [Scanner.remaining] at hle hlt
    simp only [remaining, ht, ha, Option.any_none, Bool.false_eq_true, if_false, Nat.add_zero]
    exact ⟨hle, hlt⟩

theorem consume_keeps (v : Vocabulary) : Keeps remaining (consume v) :=
  fun _ _ _ h => (consume_eq_ok h).1

theorem consume_shrinks (v : Vocabulary) : Shrinks remaining (·.kind ≠ .eof) (consume v) :=
  fun _ _ _ h => (consume_eq_ok h).2

theorem consume_of_ahead {v : Vocabulary} {s : TokenStream} {token : Token}
    (h : s.ahead = some token) : consume v s = .ok token { s with ahead := none } := by
  simp only [consume, h]

/-! ## All tokens -/

/-- Takes the next token unless it is an `eof`. -/
def consumeUnlessEof (v : Vocabulary) : TokenM (Option Token) := do
  if (← lookahead v).kind = .eof then return none
  else return some (← consume v)

theorem consumeUnlessEof_shrinks (v : Vocabulary) :
    Shrinks remaining (·.isSome = true) (consumeUnlessEof v) := by
  intro s r u h hr
  obtain ⟨token, t, hl, h⟩ := bind_eq_ok_iff.mp h
  obtain ⟨ha, hle⟩ := lookahead_eq_ok hl
  split at h
  · rw [← (pure_eq_ok_iff.mp h).1] at hr
    cases hr
  · next hk =>
    obtain ⟨found, t', hc, h⟩ := bind_eq_ok_iff.mp h
    obtain ⟨rfl, rfl⟩ := pure_eq_ok_iff.mp h
    have hf : found = token := by
      rw [consume_of_ahead ha] at hc
      cases hc
      rfl
    exact Nat.lt_of_lt_of_le (consume_shrinks v _ _ _ hc (hf ▸ hk)) hle

/-- All tokens up to and including the first `eof`. -/
def tokenize (v : Vocabulary) : TokenM (List Token) := do
  let tokens ← collect remaining (consumeUnlessEof v) (consumeUnlessEof_shrinks v)
  return tokens ++ [← consume v]

end TokenStream

end ExprLang
