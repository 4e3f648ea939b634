import ExprLang.Proofs.Reading.Tape

/-!
# A cursor is a machine on a tape

A cursor fetches lines, keeps what is pending and remembers the end. Whoever peeks, reads and puts
back cannot tell it from a machine that has nothing but a tape.

* `Op`: the operations; a text that is put back has characters.
* `Op.perform`, `Op.onTape`: what they do to a cursor, and to a tape.
* `attempt_of_ended`, `ended_of_reported`: once the end was reported the source has no part.
* **`attempts_eq_onTape`**: operations in any order come to the same on both.
-/

namespace ExprLang

namespace Cursor

/-- An operation on a source of characters. -/
inductive Op where
  | peek
  | read
  | putBack (text : String) (nonempty : text ≠ "")

/-- What an operation answers: the next character or the end, or that it is done. -/
inductive Answer where
  | next (c : Option Char)
  | done
  deriving DecidableEq

/-- Performs an operation. -/
def Op.perform : Op → CursorM Answer
  | peek => .next <$> Cursor.peek
  | read => .next <$> Cursor.read
  | putBack text _ => (fun _ => .done) <$> Cursor.putBack text

/-- Performs an operation on a tape. -/
def Op.onTape : Op → TapeM Answer
  | peek => .next <$> Tape.peek
  | read => .next <$> Tape.read
  | putBack text _ => (fun _ => .done) <$> Tape.putBack text

variable {α β : Type} {c : Cursor}

theorem OnTape.map {x : CursorM α} {y : TapeM α} (h : OnTape x y) (f : α → β) :
    OnTape (f <$> x) (f <$> y) := by
  intro c
  rw [attempt_map, attempt_map, h c]

/-- **One operation** does to a cursor what it does to its tape. -/
theorem Op.perform_onTape (op : Op) : OnTape op.perform op.onTape := by
  cases op with
  | peek => exact onTape_peek.map _
  | read => exact onTape_read.map _
  | putBack text nonempty => exact (onTape_putBack nonempty).map _

/-! ## Behind the end -/

theorem fill_of_ended (h : c.ended = true) : fill c = .ok () c := by
  simp [fill, h]

theorem attempt_peek_of_ended (h : c.ended = true) :
    attempt peek c = (.ok c.pending.head?, c) := by
  rw [attempt_peek, fill_of_ended h]

theorem attempt_read_of_ended (h : c.ended = true) :
    attempt read c = (.ok c.pending.head?, { c with pending := c.pending.tail }) := by
  rw [attempt_read, fill_of_ended h]

theorem ended_of_fill {c' : Cursor} (hf : fill c = .ok () c') (h : c'.pending.head? = none) :
    c'.ended = true := by
  have hfill := fill_tape c
  rw [hf] at hfill
  exact hfill.2 (List.head?_eq_none_iff.mp h)

/-- Where the end was seen, an operation leaves the source alone, whatever it may deliver. -/
theorem attempt_of_ended (h : c.ended = true) (op : Op) (more : Source) :
    (attempt op.perform c).2.ended = true ∧
      attempt op.perform { c with unread := more } =
        ((attempt op.perform c).1, { (attempt op.perform c).2 with unread := more }) := by
  have hmore : ({ c with unread := more } : Cursor).ended = true := h
  cases op with
  | peek =>
    rw [Op.perform, attempt_map, attempt_map, attempt_peek_of_ended h, attempt_peek_of_ended hmore]
    exact ⟨h, rfl⟩
  | read =>
    rw [Op.perform, attempt_map, attempt_map, attempt_read_of_ended h, attempt_read_of_ended hmore]
    exact ⟨h, rfl⟩
  | putBack text nonempty =>
    have hnonempty : ¬text.isEmpty = true := by simpa using nonempty
    simp only [Op.perform, attempt_map, putBack, if_neg hnonempty]
    exact ⟨h, rfl⟩

theorem ended_of_next_none {op : Op} (h : (attempt op.perform c).1 = .ok (.next none)) :
    (attempt op.perform c).2.ended = true := by
  cases op with
  | peek =>
    rw [Op.perform, attempt_map, attempt_peek] at h ⊢
    rcases hf : fill c with ⟨_, c'⟩ | ⟨e, c'⟩ <;> rw [hf] at h
    · have hended : c'.ended = true := ended_of_fill hf (Answer.next.inj (Except.ok.inj h))
      exact hended
    · cases h
  | read =>
    rw [Op.perform, attempt_map, attempt_read] at h ⊢
    rcases hf : fill c with ⟨_, c'⟩ | ⟨e, c'⟩ <;> rw [hf] at h
    · have hended : c'.ended = true := ended_of_fill hf (Answer.next.inj (Except.ok.inj h))
      exact hended
    · cases h
  | putBack text nonempty =>
    rw [Op.perform, attempt_map] at h
    rcases hput : (attempt (putBack text) c).1 with e | _ <;> rw [hput] at h <;> cases h

theorem attempts_of_ended (h : c.ended = true) (ops : List Op) (more : Source) :
    (attempts Op.perform ops c).2.ended = true ∧
      attempts Op.perform ops { c with unread := more } =
        ((attempts Op.perform ops c).1, { (attempts Op.perform ops c).2 with unread := more }) := by
  have hstep : ∀ op c c', c.ended = true ∧ c' = { c with unread := more } →
      (attempt (Op.perform op) c').1 = (attempt op.perform c).1 ∧
        (attempt op.perform c).2.ended = true ∧
        (attempt (Op.perform op) c').2 = { (attempt op.perform c).2 with unread := more } := by
    rintro op c _ ⟨hended, rfl⟩
    have hop := attempt_of_ended hended op more
    rw [hop.2]
    exact ⟨rfl, hop.1, rfl⟩
  have hrun := attempts_of_related hstep ops ⟨h, rfl⟩
  exact ⟨hrun.2.1, Prod.ext hrun.1 hrun.2.2⟩

theorem ended_of_reported {ops : List Op} (h : .ok (.next none) ∈ (attempts Op.perform ops c).1) :
    (attempts Op.perform ops c).2.ended = true := by
  induction ops generalizing c with
  | nil => cases h
  | cons op ops ih =>
    rcases List.mem_cons.mp h with hfirst | hrest
    · have hended := ended_of_next_none hfirst.symm
      exact (attempts_of_ended hended ops []).1
    · exact ih hrest

/-! ## Any operations -/

theorem attempts_onTape (ops : List Op) (c : Cursor) :
    attempts Op.onTape ops c.tape =
      ((attempts Op.perform ops c).1, (attempts Op.perform ops c).2.tape) := by
  have hstep : ∀ (op : Op) c t, t = Cursor.tape c →
      (attempt op.onTape t).1 = (attempt op.perform c).1 ∧
        (attempt op.onTape t).2 = (attempt op.perform c).2.tape := by
    rintro op c _ rfl
    rw [op.perform_onTape c]
    exact ⟨rfl, rfl⟩
  have hrun := attempts_of_related hstep ops (rfl : c.tape = c.tape)
  exact Prod.ext hrun.1 hrun.2

/-- **A cursor is a machine on a tape.** Operations in any order come to what they come to on the
tape of the source. Once the end was reported the source is not asked again: whatever it would
deliver then, it is left unread, and further operations come to what they come to on the tape. -/
theorem attempts_eq_onTape (source : Source) (ops : List Op) :
    let run := attempts Op.perform ops (.ofSource source)
    let machine := attempts Op.onTape ops source.readings
    run.1 = machine.1 ∧ run.2.tape = machine.2 ∧
      (.ok (.next none) ∈ run.1 → ∀ (more : Source) (others : List Op),
        attempts Op.perform others { run.2 with unread := more } =
          ((attempts Op.onTape others machine.2).1,
            { (attempts Op.perform others run.2).2 with unread := more })) := by
  intro run machine
  have hmachine : machine = (run.1, run.2.tape) := attempts_onTape ops (.ofSource source)
  rw [hmachine]
  refine ⟨rfl, rfl, fun hreported more others => ?_⟩
  have hended := ended_of_reported hreported
  rw [(attempts_of_ended hended others more).2, attempts_onTape]

theorem attempts_eq_onTape_behind_end :
    let behind := (attempts Op.perform [.read, .peek] (.ofSource (.ofString "a"))).2
    (attempts Op.perform [.putBack "bc" (by decide), .read, .peek, .read, .read]
        { behind with unread := .ofString "z" }).1 =
      [.ok .done, .ok (.next (some 'b')), .ok (.next (some 'c')), .ok (.next (some 'c')),
        .ok (.next none)] := by
  intro behind
  have hreported : .ok (.next none) ∈
      (attempts Op.perform [.read, .peek] (.ofSource (.ofString "a"))).1 := by decide +kernel
  have hrun := (attempts_eq_onTape (.ofString "a") [.read, .peek]).2.2 hreported (.ofString "z")
    [.putBack "bc" (by decide), .read, .peek, .read, .read]
  rw [hrun]
  decide +kernel

end Cursor

end ExprLang
