import ExprLang.Diagnostic
import ExprLang.Progress
import ExprLang.Source.Cursor
import ExprLang.Unicode.Class
import ExprLang.Vocabulary

/-!
# Scanning

A scanner is a cursor with the number of the line it stands on. `Scanner.next?` skips blanks and
reads one lexeme, which is a word, else a number, else an operator:

* A word starts with an alphabetic character or `_`, goes on with alphanumeric ones or `_`, and has
  to be followed by a blank, a special character or the end.
* A number is digits, a point and digits, where either run of digits may be missing and then counts
  as `0`. An exponent, `e` with an optional sign and a second number, makes it a floating-point
  literal. Without one, the number has to be followed by a blank, a special character other than
  `.`, or the end.
* An operator is extended for as long as the longer lexeme is registered, too.

A character that starts none of them is not taken. Every lexeme takes a character
(`next?_shrinks`).
-/

namespace ExprLang

/-- A cursor and the line it stands on, counted from 1. The counter has 32 bits and starts over at 0
behind the last number. -/
structure Scanner where
  cursor : Cursor
  line : UInt32

/-- A scanner action; a failure keeps the scanner where it left it. -/
abbrev ScanM := EStateM Failure Scanner

namespace Scanner

/-- The scanner at the start of a source. -/
def ofSource (s : Source) : Scanner := ⟨.ofSource s, 1⟩

/-- Performs a cursor action. -/
def ofCursor {α : Type} (action : CursorM α) : ScanM α := fun s =>
  match action s.cursor with
  | .ok a c => .ok a { s with cursor := c }
  | .error e c => .error (.unreadable e.message) { s with cursor := c }

/-- Folds over the next characters for as long as `step` takes them. -/
def foldWhile {β : Type} (step : β → Char → Option β) (b : β) : ScanM β := fun s =>
  let r := s.cursor.foldWhile step b
  match r.fault with
  | none => .ok r.value { s with cursor := r.cursor }
  | some text => .error (.unreadable text) { s with cursor := r.cursor }

/-- The next character, left in place. -/
def peek : ScanM (Option Char) := ofCursor Cursor.peek

/-- Takes the next character if it is the given one, and says whether it was. -/
def accept (c : Char) : ScanM Bool := do
  if (← peek) = some c then
    discard (ofCursor Cursor.read)
    return true
  else return false

/-- The text of the next characters that have a property. -/
def takeWhile (p : Char → Bool) : ScanM String :=
  foldWhile (fun text c => if p c then some (text.push c) else none) ""

/-! ## Blanks -/

/-- Counts the lines while passing over a blank. -/
def blankStep (line : UInt32) (c : Char) : Option UInt32 :=
  if Unicode.isBlank c then some (if c = '\n' then line + 1 else line) else none

/-- Skips blanks. The lines passed are counted even if a read fails behind them. -/
def skipBlanks : ScanM Unit := fun s =>
  let r := s.cursor.foldWhile blankStep s.line
  match r.fault with
  | none => .ok () ⟨r.cursor, r.value⟩
  | some text => .error (.unreadable text) ⟨r.cursor, r.value⟩

/-! ## Words -/

/-- Whether a word may start with a character. -/
def startsWord (c : Char) : Bool := Unicode.isAlphabetic c || c == '_'

/-- Whether a word may go on with a character. -/
def continuesWord (c : Char) : Bool := Unicode.isAlphanumeric c || c == '_'

/-- Whether a word may be followed by a character. -/
def endsWord (v : Vocabulary) (c : Char) : Bool := Unicode.isBlank c || c == ';' || v.isSpecial c

/-- Reads the word that starts here. -/
def wordToken (v : Vocabulary) : ScanM Token := do
  let line := (← get).line
  let word ← takeWhile continuesWord
  match ← peek with
  | some c =>
    if endsWord v c then return ⟨v.classify word, word, line⟩
    else refuse (.invalidCharacter c word) line
  | none => return ⟨v.classify word, word, line⟩

/-- Reads a word, if one starts here. -/
def word? (v : Vocabulary) : ScanM (Option Token) := do
  if (← peek).any startsWord then some <$> wordToken v else return none

/-! ## Numbers -/

/-- A number as it was written: the digits before the point, and those behind it if it has one. -/
structure Numeral where
  whole : String
  fraction : Option String

/-- Digits, or `0` for none. -/
def orZero (digits : String) : String := if digits.isEmpty then "0" else digits

/-- The text of a number, with `0` for each missing run of digits. -/
def Numeral.text (n : Numeral) : String :=
  match n.fraction with
  | some fraction => s!"{orZero n.whole}.{orZero fraction}"
  | none => orZero n.whole

/-- The kind of literal that a number without an exponent is. -/
def Numeral.kind (n : Numeral) : Kind :=
  if n.fraction.isSome then .floatLiteral else .intLiteral

/-- Reads digits and a point with digits behind it, if a digit or a point comes next. -/
def numeral? : ScanM (Option Numeral) := do
  let whole ← takeWhile Char.isDigit
  if ← accept '.' then
    let fraction ← takeWhile Char.isDigit
    return some ⟨whole, some fraction⟩
  else if whole.isEmpty then return none
  else return some ⟨whole, none⟩

/-- Reads a sign, if one comes next. -/
def sign : ScanM String := do
  if ← accept '+' then return "+"
  else if ← accept '-' then return "-"
  else return ""

/-- Whether a number without an exponent may be followed by a character. -/
def endsNumber (v : Vocabulary) (c : Char) : Bool :=
  Unicode.isBlank c || (c != '.' && v.isSpecial c)

/-- Reads what may follow a number: an exponent, or nothing that belongs to it. -/
def numberToken (v : Vocabulary) (line : UInt32) (mantissa : Numeral) : ScanM Token := do
  if ← accept 'e' then
    let front := mantissa.text ++ "e" ++ (← sign)
    match ← numeral? with
    | some exponent => return ⟨.floatLiteral, front ++ exponent.text, line⟩
    | none => refuse (.invalidNumber front) line
  else if (← peek).all (endsNumber v) then return ⟨mantissa.kind, mantissa.text, line⟩
  else refuse (.invalidNumber mantissa.text) line

/-- Reads a number, if one starts here. -/
def number? (v : Vocabulary) : ScanM (Option Token) := do
  let line := (← get).line
  match ← numeral? with
  | some mantissa => some <$> numberToken v line mantissa
  | none => return none

/-! ## Operators -/

/-- Extends an operator lexeme by a character if the longer lexeme is registered. -/
def operatorStep (v : Vocabulary) (found : String × Option Kind) (c : Char) :
    Option (String × Option Kind) :=
  let lexeme := found.1.push c
  (v.operatorKind? lexeme).map fun kind => (lexeme, some kind)

/-- Reads an operator, if one starts here. -/
def operator? (v : Vocabulary) : ScanM (Option Token) := do
  let line := (← get).line
  let (lexeme, kind?) ← foldWhile (operatorStep v) ("", none)
  return kind?.map fun kind => ⟨kind, lexeme, line⟩

/-! ## Lexemes -/

/-- What one action reads, or what another reads if the first finds nothing. -/
def orElse (first : ScanM (Option Token)) (second : ScanM Token) : ScanM Token := do
  match ← first with
  | some token => return token
  | none => second

/-- Refuses a character that starts no lexeme. -/
def refuseCharacter (c : Char) : ScanM Token := do
  refuse (.invalidSyntax c) (← get).line

/-- Reads a word, else a number, else an operator; a character that starts none is refused. -/
def lexeme (v : Vocabulary) (c : Char) : ScanM Token :=
  orElse (word? v) (orElse (number? v) (orElse (operator? v) (refuseCharacter c)))

/-- Skips blanks and reads the next lexeme; none at the end of the source. -/
def next? (v : Vocabulary) : ScanM (Option Token) := do
  skipBlanks
  match ← peek with
  | some c => some <$> lexeme v c
  | none => return none

/-! ## Progress -/

/-- An upper bound on the characters left. -/
def remaining (s : Scanner) : Nat := s.cursor.remaining

theorem ofCursor_eq_ok {α : Type} {action : CursorM α} {s t : Scanner} {a : α}
    (h : ofCursor action s = .ok a t) : action s.cursor = .ok a t.cursor ∧ t.line = s.line := by
  simp only [ofCursor] at h
  split at h
  · next hc =>
    cases h
    exact ⟨hc, rfl⟩
  · cases h

theorem foldWhile_eq_ok {β : Type} {step : β → Char → Option β} {b v : β} {s t : Scanner}
    (h : foldWhile step b s = .ok v t) :
    (s.cursor.foldWhile step b).value = v ∧ (s.cursor.foldWhile step b).cursor = t.cursor := by
  simp only [foldWhile] at h
  split at h
  · cases h
    exact ⟨rfl, rfl⟩
  · cases h

theorem foldWhile_keeps {β : Type} (step : β → Char → Option β) (b : β) :
    Keeps remaining (foldWhile step b) := by
  intro s v t h
  rw [remaining, ← (foldWhile_eq_ok h).2]
  exact Cursor.remaining_foldWhile_le step b s.cursor

theorem foldWhile_shrinks {β : Type} (step : β → Char → Option β) (b : β) :
    Shrinks remaining (· ≠ b) (foldWhile step b) := by
  intro s v t h hv
  rw [remaining, ← (foldWhile_eq_ok h).2]
  exact Cursor.remaining_foldWhile_lt fun hb => hv ((foldWhile_eq_ok h).1 ▸ hb)

theorem peek_keeps : Keeps remaining peek := by
  intro s v t h
  exact Cursor.remaining_fill_le (Cursor.peek_eq_ok (ofCursor_eq_ok h).1).1

theorem head?_of_peek {s t : Scanner} {r : Option Char} (h : peek s = .ok r t) :
    t.cursor.pending.head? = r := (Cursor.peek_eq_ok (ofCursor_eq_ok h).1).2.symm

theorem read_shrinks_of_head {s t : Scanner} {r : Option Char} {c : Char}
    (hp : s.cursor.pending.head? = some c) (h : ofCursor Cursor.read s = .ok r t) :
    t.remaining < s.remaining := by
  obtain ⟨rest, hp⟩ := List.head?_eq_some_iff.mp hp
  have hr := (ofCursor_eq_ok h).1
  rw [Cursor.read_of_head hp] at hr
  injection hr with _ hc
  simp only [remaining, Cursor.remaining, ← hc, hp, List.length_cons]
  omega

theorem accept_shrinks (c : Char) : Shrinks remaining (· = true) (accept c) := by
  intro s b u h hb
  obtain ⟨r, t, hp, h⟩ := bind_eq_ok_iff.mp h
  split at h
  · next hr =>
    obtain ⟨_, t', hd, h⟩ := bind_eq_ok_iff.mp h
    obtain ⟨r', hd, -⟩ := map_eq_ok_iff.mp hd
    have ht := (pure_eq_ok_iff.mp h).2
    rw [← ht]
    exact Nat.lt_of_lt_of_le (read_shrinks_of_head (hr ▸ head?_of_peek hp) hd) (peek_keeps _ _ _ hp)
  · have := (pure_eq_ok_iff.mp h).1
    rw [hb] at this
    cases this

theorem accept_keeps (c : Char) : Keeps remaining (accept c) := by
  intro s b u h
  cases b with
  | true => exact Nat.le_of_lt (accept_shrinks c _ _ _ h rfl)
  | false =>
    obtain ⟨r, t, hp, h⟩ := bind_eq_ok_iff.mp h
    split at h
    · obtain ⟨_, _, _, h⟩ := bind_eq_ok_iff.mp h
      exact absurd (pure_eq_ok_iff.mp h).1 (by simp)
    · rw [← (pure_eq_ok_iff.mp h).2]
      exact peek_keeps _ _ _ hp

theorem skipBlanks_keeps : Keeps remaining skipBlanks := by
  intro s v t h
  simp only [skipBlanks] at h
  split at h
  · cases h
    exact Cursor.remaining_foldWhile_le blankStep s.line s.cursor
  · cases h

theorem takeWhile_keeps (p : Char → Bool) : Keeps remaining (takeWhile p) := foldWhile_keeps _ _

theorem takeWhile_shrinks (p : Char → Bool) : Shrinks remaining (· ≠ "") (takeWhile p) :=
  foldWhile_shrinks _ _

theorem continuesWord_of_startsWord {c : Char} (h : startsWord c = true) :
    continuesWord c = true := by
  simp only [startsWord, continuesWord, Bool.or_eq_true] at h ⊢
  exact h.imp Unicode.isAlphanumeric_of_isAlphabetic id

theorem takeWhile_shrinks_of_head {p : Char → Bool} {s t : Scanner} {text : String} {c : Char}
    (hp : s.cursor.pending.head? = some c) (hc : p c = true) (h : takeWhile p s = .ok text t) :
    t.remaining < s.remaining := by
  obtain ⟨rest, hp⟩ := List.head?_eq_some_iff.mp hp
  rw [remaining, ← (foldWhile_eq_ok h).2]
  exact Cursor.remaining_foldWhile_lt_of_head hp (if_pos hc)

theorem refuse_keeps {α : Type} (cause : Cause) (line : UInt32) :
    Keeps remaining (refuse cause line : ScanM α) := .throw _

theorem refuse_shrinks {α : Type} {p : α → Prop} (cause : Cause) (line : UInt32) :
    Shrinks remaining p (refuse cause line : ScanM α) := .throw _

theorem wordToken_shrinks_of_head {v : Vocabulary} {s t : Scanner} {token : Token} {c : Char}
    (hp : s.cursor.pending.head? = some c) (hc : startsWord c = true)
    (h : wordToken v s = .ok token t) : t.remaining < s.remaining := by
  obtain ⟨_, _, hg, h⟩ := bind_eq_ok_iff.mp h
  obtain ⟨rfl, rfl⟩ := get_eq_ok_iff.mp hg
  obtain ⟨word, s', hw, h⟩ := bind_eq_ok_iff.mp h
  refine Nat.lt_of_le_of_lt ?_
    (takeWhile_shrinks_of_head hp (continuesWord_of_startsWord hc) hw)
  refine Keeps.bind peek_keeps (fun r => ?_) _ _ _ h
  split
  · split
    · exact .pure _
    · exact refuse_keeps _ _
  · exact .pure _

theorem word?_shrinks (v : Vocabulary) : Shrinks remaining (·.isSome = true) (word? v) := by
  intro s r u h hr
  obtain ⟨c, t, hp, h⟩ := bind_eq_ok_iff.mp h
  split at h
  · next hc =>
    obtain ⟨token, h, -⟩ := map_eq_ok_iff.mp h
    rw [← head?_of_peek hp] at hc
    obtain ⟨d, hd, hc⟩ := Option.any_eq_true _ _ |>.mp hc
    exact Nat.lt_of_lt_of_le (wordToken_shrinks_of_head hd hc h) (peek_keeps _ _ _ hp)
  · rw [← (pure_eq_ok_iff.mp h).1] at hr
    cases hr

theorem word?_keeps (v : Vocabulary) : Keeps remaining (word? v) := by
  intro s r u h
  cases r with
  | some token => exact Nat.le_of_lt (word?_shrinks v _ _ _ h rfl)
  | none =>
    obtain ⟨c, t, hp, h⟩ := bind_eq_ok_iff.mp h
    split at h
    · obtain ⟨_, _, hn⟩ := map_eq_ok_iff.mp h
      cases hn
    · rw [← (pure_eq_ok_iff.mp h).2]
      exact peek_keeps _ _ _ hp

theorem sign_keeps : Keeps remaining sign := by
  refine .bind (accept_keeps _) fun b => ?_
  split
  · exact .pure _
  · refine .bind (accept_keeps _) fun b => ?_
    split <;> exact .pure _

theorem numeral?_keeps : Keeps remaining numeral? := by
  refine .bind (takeWhile_keeps _) fun whole => .bind (accept_keeps _) fun b => ?_
  split
  · exact .bind (takeWhile_keeps _) fun _ => .pure _
  · split <;> exact .pure _

theorem numeral?_shrinks : Shrinks remaining (·.isSome = true) numeral? := by
  refine .bind (takeWhile_keeps _) (takeWhile_shrinks _) (fun whole => ?_) fun whole hw => ?_
  · refine .bind (accept_keeps _) fun b => ?_
    split
    · exact .bind (takeWhile_keeps _) fun _ => .pure _
    · split <;> exact .pure _
  · refine .bind (accept_keeps _) (accept_shrinks _) (fun b => ?_) fun b hb => ?_
    · split
      · exact .bind (takeWhile_keeps _) fun _ => .pure _
      · split <;> exact .pure _
    · have hw : whole.isEmpty = true := by simpa using hw
      rw [if_neg hb, if_pos hw]
      exact .pure (by simp)

theorem numberToken_keeps (v : Vocabulary) (line : UInt32) (mantissa : Numeral) :
    Keeps remaining (numberToken v line mantissa) := by
  refine .bind (accept_keeps _) fun b => ?_
  split
  · refine .bind sign_keeps fun _ => .bind numeral?_keeps fun r => ?_
    split
    · exact .pure _
    · exact refuse_keeps _ _
  · refine .bind peek_keeps fun r => ?_
    split
    · exact .pure _
    · exact refuse_keeps _ _

theorem number?_keeps (v : Vocabulary) : Keeps remaining (number? v) := by
  refine .bind .get fun s => .bind numeral?_keeps fun r => ?_
  split
  · exact .map _ (numberToken_keeps _ _ _)
  · exact .pure _

theorem number?_shrinks (v : Vocabulary) : Shrinks remaining (·.isSome = true) (number? v) := by
  refine .bind_right .get fun s =>
    .bind numeral?_keeps numeral?_shrinks (fun r => ?_) fun r hr => ?_
  · split
    · exact .map _ (numberToken_keeps _ _ _)
    · exact .pure _
  · split
    · exact absurd rfl hr
    · exact .pure (by simp)

theorem operator?_keeps (v : Vocabulary) : Keeps remaining (operator? v) :=
  .bind .get fun _ => .bind (foldWhile_keeps _ _) fun _ => .pure _

theorem operator?_shrinks (v : Vocabulary) :
    Shrinks remaining (·.isSome = true) (operator? v) := by
  refine .bind_right .get fun s => .bind (foldWhile_keeps _ _) (foldWhile_shrinks _ _)
    (fun _ => .pure _) fun r hr => ?_
  have hr : r = ("", none) := Classical.not_not.mp hr
  subst hr
  exact .pure (by simp)

theorem orElse_shrinks {first : ScanM (Option Token)} {second : ScanM Token}
    (hk : Keeps remaining first) (hf : Shrinks remaining (·.isSome = true) first)
    (hs : Shrinks remaining (fun _ => True) second) :
    Shrinks remaining (fun _ => True) (orElse first second) := by
  refine .bind hk hf (fun r => ?_) fun r hr => ?_
  · split
    · exact .pure _
    · exact hs.keeps
  · split
    · exact absurd rfl hr
    · exact hs

theorem refuseCharacter_shrinks {p : Token → Prop} (c : Char) :
    Shrinks remaining p (refuseCharacter c) := .bind_right .get fun _ => refuse_shrinks _ _

theorem lexeme_shrinks (v : Vocabulary) (c : Char) :
    Shrinks remaining (fun _ => True) (lexeme v c) :=
  orElse_shrinks (word?_keeps v) (word?_shrinks v) <|
    orElse_shrinks (number?_keeps v) (number?_shrinks v) <|
      orElse_shrinks (operator?_keeps v) (operator?_shrinks v) (refuseCharacter_shrinks c)

theorem next?_shrinks (v : Vocabulary) : Shrinks remaining (·.isSome = true) (next? v) := by
  refine .bind_right skipBlanks_keeps fun _ => .bind_right peek_keeps fun r => ?_
  split
  · exact .map ((lexeme_shrinks v _).mono fun _ _ => trivial)
  · exact .pure (by simp)

theorem next?_keeps (v : Vocabulary) : Keeps remaining (next? v) := by
  refine .bind skipBlanks_keeps fun _ => .bind peek_keeps fun r => ?_
  split
  · exact .map _ (lexeme_shrinks v _).keeps
  · exact .pure _

end Scanner

end ExprLang
