import Mathlib.Data.List.TakeWhile
import Mathlib.Tactic.SplitIfs
import ExprLang.Proofs.Stream.Attempts
import ExprLang.Source.Cursor

/-!
# The tape of a source

A source is cut into stretches, behind each line feed and behind each failed read. A stretch is read
as its characters, or it is lost as a whole. What is read so, one after the other, is the tape of
the source. A cursor has a tape as well: what is pending, and the tape of what is unread.

* `Source.stretches`, `Source.readings`: the stretches of a source, and its tape.
* `within_or_cut`, **`readings_eq`**: a line that is read is the first stretch.
* `Tape.peek`, `Tape.read`, `Tape.putBack`, `Tape.fold`: what a cursor does, on a tape.
* `Cursor.tape`, `OnTape`: a cursor has a tape, and an action does the same to that.
* **`fold_tape`**, `onTape_peek`, `onTape_read`, `onTape_putBack`: the actions of a cursor.
-/

namespace ExprLang

/-- What reading comes upon: a character, or the loss of a stretch. -/
inductive Reading where
  | char (c : Char)
  | lost (text : String)
  deriving DecidableEq

/-- All that reading has yet to come upon. -/
abbrev Tape := List Reading

/-- The tape of characters. -/
def Tape.ofCharacters (cs : List Char) : Tape := cs.map .char

namespace Source

/-- The stretches of a source: it is cut behind whatever ends a line. -/
def stretches : Source → List Source
  | [] => []
  | d :: rest =>
    if d.withinLine then
      match stretches rest with
      | [] => [[d]]
      | first :: others => (d :: first) :: others
    else [d] :: stretches rest

/-- What a stretch is read as. -/
def stretchReadings (stretch : Source) : Tape :=
  match stretch.getLast? with
  | some (.fault text) => [.lost text]
  | _ =>
    match String.fromUTF8? (stretch.filterMap Delivery.byte?).toByteArray with
    | some text => .ofCharacters text.toList
    | none => [.lost malformedText]

/-- What a source is read as. -/
def readings (s : Source) : Tape := s.stretches.flatMap stretchReadings

/-! ## Stretches -/

variable {s front rest : Source} {d : Delivery}

theorem stretches_of_within (h : ∀ d ∈ front, d.withinLine = true) (hne : front ≠ []) :
    front.stretches = [front] := by
  induction front with
  | nil => exact absurd rfl hne
  | cons d front ih =>
    rw [stretches, if_pos (h d List.mem_cons_self)]
    by_cases hfront : front = []
    · rw [hfront]
      rfl
    · rw [ih (fun x hx => h x (List.mem_cons_of_mem _ hx)) hfront]

theorem stretches_cut (h : ∀ d ∈ front, d.withinLine = true) (hd : d.withinLine = false) :
    (front ++ d :: rest).stretches = (front ++ [d]) :: rest.stretches := by
  induction front with
  | nil =>
    rw [List.nil_append, stretches, hd]
    rfl
  | cons x front ih =>
    rw [List.cons_append, stretches, if_pos (h x List.mem_cons_self),
      ih fun y hy => h y (List.mem_cons_of_mem _ hy)]
    rfl

theorem readings_cut (h : ∀ d ∈ front, d.withinLine = true) (hd : d.withinLine = false) :
    (front ++ d :: rest).readings = stretchReadings (front ++ [d]) ++ rest.readings := by
  unfold readings
  rw [stretches_cut h hd, List.flatMap_cons]

theorem readings_of_within (h : ∀ d ∈ front, d.withinLine = true) (hne : front ≠ []) :
    front.readings = stretchReadings front := by
  unfold readings
  rw [stretches_of_within h hne, List.flatMap_singleton]

end Source

/-- What is read when a line is asked for. -/
def LineRead.readings : LineRead → Tape
  | finished => []
  | line text => .ofCharacters text.toList
  | fault text => [.lost text]

namespace Source

variable {s front rest : Source} {d : Delivery}

theorem stretchReadings_fault (text : String) :
    stretchReadings (front ++ [.fault text]) = [.lost text] := by
  unfold stretchReadings
  rw [List.getLast?_concat]

theorem stretchReadings_eq_decode (h : ∀ text, s.getLast? ≠ some (.fault text)) :
    stretchReadings s = (decode (s.filterMap Delivery.byte?)).readings := by
  unfold stretchReadings decode
  split
  · next text hlast => exact absurd hlast (h text)
  · rcases String.fromUTF8? (s.filterMap Delivery.byte?).toByteArray with _ | text <;> rfl

/-! ## Lines -/

/-- A source is the front of a line, or has a first end of a line. -/
theorem within_or_cut (s : Source) :
    (∀ d ∈ s, d.withinLine = true) ∨ ∃ front d rest, s = front ++ d :: rest ∧
      (∀ x ∈ front, x.withinLine = true) ∧ d.withinLine = false := by
  induction s with
  | nil => exact .inl (List.forall_mem_nil _)
  | cons d s ih =>
    by_cases hd : d.withinLine = true
    · rcases ih with hs | ⟨front, x, rest, rfl, hfront, hx⟩
      · exact .inl (List.forall_mem_cons.mpr ⟨hd, hs⟩)
      · exact .inr ⟨d :: front, x, rest, rfl, List.forall_mem_cons.mpr ⟨hd, hfront⟩, hx⟩
    · exact .inr ⟨[], d, s, rfl, List.forall_mem_nil _, by simpa using hd⟩

theorem readLine_of_within (h : ∀ d ∈ front, d.withinLine = true) (hne : front ≠ []) :
    front.readLine = (decode (front.filterMap Delivery.byte?), []) := by
  unfold readLine
  rw [if_neg fun hn => hne (List.isEmpty_iff.mp hn), List.takeWhile_eq_self_iff.mpr h,
    List.dropWhile_eq_nil_iff.mpr h]

theorem readLine_cut (h : ∀ d ∈ front, d.withinLine = true) (hd : d.withinLine = false) :
    (front ++ d :: rest).readLine =
      match d with
      | .byte b => (decode (front.filterMap Delivery.byte? ++ [b]), rest)
      | .fault text => (.fault text, rest) := by
  have hstop : ¬d.withinLine = true := by simp [hd]
  unfold readLine
  rw [if_neg (by simp), List.takeWhile_append_of_pos h, List.dropWhile_append_of_pos h,
    List.takeWhile_cons_of_neg hstop, List.dropWhile_cons_of_neg hstop, List.append_nil]
  cases d <;> rfl

/-- **A line that is read is the first stretch**, and the others are left. -/
theorem readings_eq (s : Source) : s.readings = s.readLine.1.readings ++ s.readLine.2.readings := by
  rcases within_or_cut s with hs | ⟨front, d, rest, rfl, hfront, hd⟩
  · by_cases hne : s = []
    · rw [hne]
      rfl
    · have hlast : ∀ text, s.getLast? ≠ some (.fault text) :=
        fun text hlast => nomatch hs _ (List.mem_of_getLast? hlast)
      rw [readings_of_within hs hne, readLine_of_within hs hne, stretchReadings_eq_decode hlast]
      exact (List.append_nil _).symm
  · rw [readings_cut hfront hd, readLine_cut hfront hd]
    cases d with
    | byte b =>
      rw [stretchReadings_eq_decode (by simp), List.filterMap_append]
      rfl
    | fault text =>
      rw [stretchReadings_fault]
      rfl

theorem readings_of_readLine {r : LineRead} (h : s.readLine = (r, rest)) :
    s.readings = r.readings ++ rest.readings := by
  rw [readings_eq, h]

theorem bytes_ne_nil (h : ∀ d ∈ front, d.withinLine = true) (hne : front ≠ []) :
    front.filterMap Delivery.byte? ≠ [] := by
  cases front with
  | nil => exact absurd rfl hne
  | cons d front =>
    cases d with
    | byte b => simp [Delivery.byte?]
    | fault text => cases h _ List.mem_cons_self

theorem ne_nil_of_decode {bytes : List UInt8} {text : String} (h : decode bytes = .line text)
    (hne : bytes ≠ []) : text.toList ≠ [] := by
  intro hnil
  rw [String.toList_eq_nil_iff] at hnil
  unfold decode String.fromUTF8? at h
  split_ifs at h with hvalid
  · have htext : String.fromUTF8 bytes.toByteArray hvalid = "" := by
      rw [← hnil]
      exact LineRead.line.inj h
    have hbytes : bytes.toByteArray = ByteArray.empty := congrArg String.toByteArray htext
    refine hne ?_
    have hdata := congrArg (fun a => a.data.toList) hbytes
    simpa using hdata

theorem ne_nil_of_readLine {text : String} (h : s.readLine = (.line text, rest)) :
    text.toList ≠ [] := by
  rcases within_or_cut s with hs | ⟨front, d, others, rfl, hfront, hd⟩
  · by_cases hne : s = []
    · rw [hne, readLine_nil] at h
      cases h
    · rw [readLine_of_within hs hne] at h
      exact ne_nil_of_decode (congrArg Prod.fst h) (bytes_ne_nil hs hne)
  · rw [readLine_cut hfront hd] at h
    cases d with
    | byte b => exact ne_nil_of_decode (congrArg Prod.fst h) (by simp)
    | fault text => cases h

end Source

/-! ## Actions on a tape -/

/-- An action on a tape. -/
abbrev TapeM := EStateM CursorError Tape

namespace Tape

variable {β : Type}

/-- The next character, left in place; none at the end. A loss is reported, and is gone. -/
def peek : TapeM (Option Char)
  | [] => .ok none []
  | .char c :: rest => .ok (some c) (.char c :: rest)
  | .lost text :: rest => .error (.unreadable text) rest

/-- The next character, taken; none at the end. A loss is reported, and is gone. -/
def read : TapeM (Option Char)
  | [] => .ok none []
  | .char c :: rest => .ok (some c) rest
  | .lost text :: rest => .error (.unreadable text) rest

/-- Puts a text in front. -/
def putBack (text : String) : TapeM Unit := fun t => .ok () (ofCharacters text.toList ++ t)

/-- Folds over the characters at the front for as long as `step` takes them: what it comes to, the
loss that has stopped it if one did, and what is left. -/
def fold (step : β → Char → Option β) : β → Tape → β × Option String × Tape
  | b, [] => (b, none, [])
  | b, .char c :: rest =>
    match step b c with
    | some b' => fold step b' rest
    | none => (b, none, .char c :: rest)
  | b, .lost text :: rest => (b, some text, rest)

theorem fold_ofCharacters (step : β → Char → Option β) (b : β) (cs : List Char) (t : Tape) :
    fold step b (ofCharacters cs ++ t) =
      match Cursor.foldFront step b cs with
      | (b', []) => fold step b' t
      | (b', c :: rest) => (b', none, ofCharacters (c :: rest) ++ t) := by
  induction cs generalizing b with
  | nil => rfl
  | cons c cs ih =>
    change fold step b (.char c :: (ofCharacters cs ++ t)) = _
    rw [fold, Cursor.foldFront]
    rcases step b c with _ | b'
    · rfl
    · exact ih b'

end Tape

namespace Cursor

variable {α β : Type} {c : Cursor}

/-- All that a cursor has yet to come upon. -/
def tape (c : Cursor) : Tape :=
  .ofCharacters c.pending ++ if c.ended then [] else c.unread.readings

@[simp] theorem tape_ofSource (s : Source) : (ofSource s).tape = s.readings := rfl

theorem tape_of_ended (h : c.ended = true) : c.tape = .ofCharacters c.pending := by
  simp [tape, h]

theorem tape_of_not_ended (h : ¬c.ended = true) :
    c.tape = .ofCharacters c.pending ++ c.unread.readings := by
  simp [tape, h]

/-- **A fold over characters** is a fold over the tape. -/
theorem fold_tape (step : β → Char → Option β) (b : β) (c : Cursor) :
    Tape.fold step b c.tape =
      ((c.foldWhile step b).value, (c.foldWhile step b).fault,
        (c.foldWhile step b).cursor.tape) := by
  fun_induction foldWhile step b c with
  | case1 b c b' ch rest h =>
    rw [tape, Tape.fold_ofCharacters, h]
    rfl
  | case2 b c b' h he =>
    rw [tape_of_ended he, ← List.append_nil (Tape.ofCharacters _), Tape.fold_ofCharacters, h]
    simp [Tape.fold, tape, Tape.ofCharacters, he]
  | case3 b c b' h he rest hr =>
    obtain ⟨hunread, rfl⟩ := Source.eq_nil_of_readLine_finished hr
    rw [tape_of_not_ended he, hunread, Tape.fold_ofCharacters, h]
    rfl
  | case4 b c b' h he text rest hr =>
    rw [tape_of_not_ended he, Source.readings_of_readLine hr, Tape.fold_ofCharacters, h]
    rfl
  | case5 b c b' h he text rest hr ih =>
    rw [tape_of_not_ended he, Source.readings_of_readLine hr, Tape.fold_ofCharacters, h]
    exact ih

/-- Fetching a line leaves the tape as it is, or takes a loss from it. Nothing is pending afterwards
only at the end. -/
theorem fill_tape (c : Cursor) :
    match fill c with
    | .ok _ c' => c'.tape = c.tape ∧ (c'.pending = [] → c'.ended = true)
    | .error e c' => ∃ text, e = .unreadable text ∧ c.tape = .lost text :: c'.tape := by
  unfold fill
  by_cases hfetch : (c.pending.isEmpty && !c.ended) = true
  · have hpending : c.pending = [] := by simp_all
    have hended : ¬c.ended = true := by simp_all
    rw [if_pos hfetch, tape_of_not_ended hended, hpending]
    rcases hr : c.unread.readLine with ⟨_ | text | text, rest⟩
    · obtain ⟨hunread, rfl⟩ := Source.eq_nil_of_readLine_finished hr
      rw [hunread]
      exact ⟨rfl, fun _ => rfl⟩
    · rw [Source.readings_of_readLine hr]
      have hne := Source.ne_nil_of_readLine hr
      simp [tape, hended, LineRead.readings, hne, Tape.ofCharacters]
    · rw [Source.readings_of_readLine hr]
      simp [tape, hended, LineRead.readings, Tape.ofCharacters]
  · rw [if_neg hfetch]
    refine ⟨rfl, fun hpending => ?_⟩
    simpa [hpending] using hfetch

/-- A fetch comes to the end, to a character or to a loss. -/
theorem fill_cases (c : Cursor) :
    (∃ c', fill c = .ok () c' ∧ c'.pending = [] ∧ c'.ended = true ∧ c.tape = []) ∨
      (∃ c' ch rest, fill c = .ok () c' ∧ c'.pending = ch :: rest ∧
        c.tape = .char ch :: { c' with pending := rest }.tape) ∨
      ∃ text c', fill c = .error (.unreadable text) c' ∧ c.tape = .lost text :: c'.tape := by
  have hfill := fill_tape c
  rcases hf : fill c with ⟨_, c'⟩ | ⟨e, c'⟩ <;> rw [hf] at hfill
  · rcases hp : c'.pending with _ | ⟨ch, rest⟩
    · have hended := hfill.2 hp
      have htape : c.tape = [] := by rw [← hfill.1, tape_of_ended hended, hp]; rfl
      exact .inl ⟨c', rfl, hp, hended, htape⟩
    · refine .inr (.inl ⟨c', ch, rest, rfl, hp, ?_⟩)
      rw [← hfill.1]
      simp only [tape, hp]
      rfl
  · obtain ⟨text, rfl, htape⟩ := hfill
    exact .inr (.inr ⟨text, c', rfl, htape⟩)

/-! ## Actions of a cursor -/

/-- The actions come to the same, and leave the same tape. -/
def OnTape (x : CursorM α) (y : TapeM α) : Prop :=
  ∀ c, attempt y c.tape = ((attempt x c).1, (attempt x c).2.tape)

theorem attempt_peek (c : Cursor) :
    attempt peek c =
      match fill c with
      | .ok _ c' => (.ok c'.pending.head?, c')
      | .error e c' => (.error e, c') := by
  simp only [attempt, peek, bind, EStateM.bind]
  cases fill c <;> rfl

theorem attempt_read (c : Cursor) :
    attempt read c =
      match fill c with
      | .ok _ c' => (.ok c'.pending.head?, { c' with pending := c'.pending.tail })
      | .error e c' => (.error e, c') := by
  simp only [attempt, read, bind, EStateM.bind]
  cases fill c <;> rfl

theorem onTape_peek : OnTape peek Tape.peek := by
  intro c
  rcases fill_cases c with ⟨c', hf, hp, he, ht⟩ | ⟨c', ch, rest, hf, hp, ht⟩ | ⟨text, c', hf, ht⟩
  · rw [attempt_peek, hf, ht]
    simp [attempt, Tape.peek, tape, hp, he, Tape.ofCharacters]
  · rw [attempt_peek, hf, ht]
    simp [attempt, Tape.peek, tape, hp, Tape.ofCharacters]
  · rw [attempt_peek, hf, ht]
    rfl

theorem onTape_read : OnTape read Tape.read := by
  intro c
  rcases fill_cases c with ⟨c', hf, hp, he, ht⟩ | ⟨c', ch, rest, hf, hp, ht⟩ | ⟨text, c', hf, ht⟩
  · rw [attempt_read, hf, ht]
    simp [attempt, Tape.read, tape, hp, he, Tape.ofCharacters]
  · rw [attempt_read, hf, ht]
    simp [attempt, Tape.read, hp]
  · rw [attempt_read, hf, ht]
    rfl

theorem onTape_putBack {text : String} (h : text ≠ "") :
    OnTape (putBack text) (Tape.putBack text) := by
  intro c
  have hput : putBack text c = .ok () { c with pending := text.toList ++ c.pending } := by
    unfold putBack
    rw [if_neg (by simpa using h)]
    rfl
  rw [attempt_of_ok hput]
  simp only [tape, Tape.ofCharacters, List.map_append, List.append_assoc]
  rfl

end Cursor

end ExprLang
