import ExprLang.Source

/-!
# Cursors

A cursor reads a source character by character. It fetches a line only when no character is
pending, remembers that the source has ended, and takes any text back in front of what is pending.

* `peek`, `read`, `putBack`: one step each; a failure of the source leaves the cursor behind what
  the failure cost.
* `foldWhile`: folds over characters for as long as a step takes them, across lines. Every loop
  over the characters of a source is an instance.
* `remaining`: how much is left at most; reading never raises it (`remaining_foldWhile_le`).
-/

namespace ExprLang

/-- A position in a source, with the characters fetched and not yet read. -/
structure Cursor where
  pending : List Char
  unread : Source
  ended : Bool

/-- What a cursor action can fail with. -/
inductive CursorError where
  /-- A read of the source failed, with this text. -/
  | unreadable (text : String)
  /-- A text without characters was put back. -/
  | emptyPutBack
  deriving DecidableEq

/-- The text of the failure. -/
def CursorError.message : CursorError → String
  | unreadable text => text
  | emptyPutBack => "empty string cannot be put back into the character source"

/-- A cursor action; a failure keeps the cursor where it left it. -/
abbrev CursorM := EStateM CursorError Cursor

namespace Cursor

/-- The cursor at the start of a source. -/
def ofSource (s : Source) : Cursor := ⟨[], s, false⟩

/-- An upper bound on the characters left. -/
def remaining (c : Cursor) : Nat := c.pending.length + c.unread.length

/-- Fetches a line if no character is pending and the end has not been seen. -/
def fill : CursorM Unit := fun c =>
  if c.pending.isEmpty && !c.ended then
    match c.unread.readLine with
    | (.finished, rest) => .ok () { c with unread := rest, ended := true }
    | (.line text, rest) => .ok () { c with pending := text.toList, unread := rest }
    | (.fault text, rest) => .error (.unreadable text) { c with unread := rest }
  else .ok () c

/-- The next character, left in place; none at the end. -/
def peek : CursorM (Option Char) := do
  fill
  return (← get).pending.head?

/-- The next character, taken; none at the end. -/
def read : CursorM (Option Char) := do
  fill
  modifyGet fun c => (c.pending.head?, { c with pending := c.pending.tail })

/-- Puts a text in front of what is pending; a text without characters is refused. -/
def putBack (text : String) : CursorM Unit :=
  if text.isEmpty then throw .emptyPutBack
  else modify fun c => { c with pending := text.toList ++ c.pending }

/-! ## Folds -/

/-- Where a fold over characters came to: its value, the failed read that stopped it if one did,
and the cursor in front of the first character not taken. -/
structure Folded (β : Type) where
  value : β
  fault : Option String
  cursor : Cursor

variable {β : Type}

/-- Folds over the characters at the front of a list for as long as `step` takes them. -/
def foldFront (step : β → Char → Option β) : β → List Char → β × List Char
  | b, [] => (b, [])
  | b, ch :: rest =>
    match step b ch with
    | some b' => foldFront step b' rest
    | none => (b, ch :: rest)

/-- Folds over the next characters for as long as `step` takes them. The first that it refuses
stays; a failed read stops the fold as well. -/
def foldWhile (step : β → Char → Option β) (b : β) (c : Cursor) : Folded β :=
  match foldFront step b c.pending with
  | (b', ch :: rest) => ⟨b', none, { c with pending := ch :: rest }⟩
  | (b', []) =>
    if c.ended then ⟨b', none, { c with pending := [] }⟩
    else
      match _h : c.unread.readLine with
      | (.finished, rest) => ⟨b', none, ⟨[], rest, true⟩⟩
      | (.fault text, rest) => ⟨b', some text, ⟨[], rest, false⟩⟩
      | (.line text, rest) => foldWhile step b' ⟨text.toList, rest, false⟩
termination_by c.unread.length
decreasing_by exact Source.readLine_length_lt _h (by simp)

/-! ## Progress -/

theorem length_foldFront_le (step : β → Char → Option β) (b : β) (cs : List Char) :
    (foldFront step b cs).2.length ≤ cs.length := by
  induction cs generalizing b with
  | nil => simp [foldFront]
  | cons ch rest ih =>
    rw [foldFront]
    split
    · exact Nat.le_succ_of_le (ih _)
    · exact Nat.le_refl _

theorem length_foldFront_lt (step : β → Char → Option β) (b : β) (cs : List Char)
    (h : (foldFront step b cs).1 ≠ b) : (foldFront step b cs).2.length < cs.length := by
  cases cs with
  | nil => exact absurd rfl h
  | cons ch rest =>
    rw [foldFront] at h ⊢
    split
    · exact Nat.lt_succ_of_le (length_foldFront_le ..)
    · next hs => simp [hs] at h

theorem remaining_foldWhile_le (step : β → Char → Option β) (b : β) (c : Cursor) :
    (c.foldWhile step b).cursor.remaining ≤ c.remaining := by
  fun_induction foldWhile step b c with
  | case1 b c b' ch rest h =>
    have := length_foldFront_le step b c.pending
    simp only [h] at this
    simp only [remaining]
    omega
  | case2 b c b' h he => simp [remaining]
  | case3 b c b' h he rest hr =>
    obtain ⟨-, rfl⟩ := Source.eq_nil_of_readLine_finished hr
    simp [remaining]
  | case4 b c b' h he text rest hr =>
    have := Source.readLine_length_lt hr (by simp)
    simp only [remaining, List.length_nil]
    omega
  | case5 b c b' h he text rest hr ih =>
    have := Source.length_readLine_le hr
    simp only [remaining] at ih ⊢
    omega

theorem remaining_foldWhile_lt {step : β → Char → Option β} {b : β} {c : Cursor}
    (hv : (c.foldWhile step b).value ≠ b) :
    (c.foldWhile step b).cursor.remaining < c.remaining := by
  fun_induction foldWhile step b c with
  | case1 b c b' ch rest h =>
    have := length_foldFront_lt step b c.pending (by rw [h]; exact hv)
    simp only [h] at this
    simp only [remaining]
    omega
  | case2 b c b' h he =>
    have := length_foldFront_lt step b c.pending (by rw [h]; exact hv)
    simp only [h, List.length_nil] at this
    simp only [remaining, List.length_nil]
    omega
  | case3 b c b' h he rest hr =>
    have := length_foldFront_lt step b c.pending (by rw [h]; exact hv)
    simp only [h, List.length_nil] at this
    obtain ⟨-, rfl⟩ := Source.eq_nil_of_readLine_finished hr
    simp only [remaining, List.length_nil]
    omega
  | case4 b c b' h he text rest hr =>
    have := Source.readLine_length_lt hr (by simp)
    simp only [remaining, List.length_nil]
    omega
  | case5 b c b' h he text rest hr ih =>
    have := Source.length_readLine_le hr
    by_cases hb : b' = b
    · subst hb
      have := ih hv
      simp only [remaining] at this ⊢
      omega
    · have hf := length_foldFront_lt step b c.pending (by rw [h]; exact hb)
      simp only [h, List.length_nil] at hf
      have hw := remaining_foldWhile_le step b' ⟨text.toList, rest, false⟩
      simp only [remaining] at hw ⊢
      omega

theorem foldWhile_of_head {step : β → Char → Option β} {b b' : β} {c : Cursor} {ch : Char}
    {rest : List Char} (hp : c.pending = ch :: rest) (hs : step b ch = some b') :
    c.foldWhile step b = { c with pending := rest }.foldWhile step b' := by
  rw [foldWhile, foldWhile.eq_1 step b', hp]
  simp only [foldFront, hs]

/-- A fold that takes the first pending character makes progress. -/
theorem remaining_foldWhile_lt_of_head {step : β → Char → Option β} {b b' : β} {c : Cursor}
    {ch : Char} {rest : List Char} (hp : c.pending = ch :: rest) (hs : step b ch = some b') :
    (c.foldWhile step b).cursor.remaining < c.remaining := by
  rw [foldWhile_of_head hp hs]
  have := remaining_foldWhile_le step b' { c with pending := rest }
  simp only [remaining, hp, List.length_cons] at this ⊢
  omega

theorem remaining_fill_le {c c' : Cursor} (h : fill c = .ok () c') :
    c'.remaining ≤ c.remaining := by
  simp only [fill] at h
  split at h
  · next hp =>
    have hp : c.pending = [] := by
      rw [Bool.and_eq_true, List.isEmpty_iff] at hp
      exact hp.1
    split at h
    · next rest hr =>
      obtain ⟨-, rfl⟩ := Source.eq_nil_of_readLine_finished hr
      cases h
      simp [remaining]
    · next text rest hr =>
      have := Source.length_readLine_le hr
      cases h
      simp only [remaining, hp, List.length_nil]
      omega
    · cases h
  · cases h
    exact Nat.le_refl _

theorem peek_eq_ok {c c' : Cursor} {r : Option Char} (h : peek c = .ok r c') :
    fill c = .ok () c' ∧ r = c'.pending.head? := by
  cases hf : fill c with
  | ok _ d =>
    simp only [peek, bind, EStateM.bind, hf] at h
    cases h
    exact ⟨rfl, rfl⟩
  | error e d => simp [peek, bind, EStateM.bind, hf] at h

/-- Reading takes the first pending character of a cursor that has one. -/
theorem read_of_head {c : Cursor} {ch : Char} {rest : List Char} (hp : c.pending = ch :: rest) :
    read c = .ok (some ch) { c with pending := rest } := by
  have hf : fill c = .ok () c := by simp [fill, hp]
  simp only [read, bind, EStateM.bind, hf]
  change EStateM.Result.ok c.pending.head? { c with pending := c.pending.tail } = _
  rw [hp]
  rfl

end Cursor

end ExprLang
