import ExprLang.Proofs.Lexing.Lines
import ExprLang.Token.Scanner

/-!
# Scanning a text

What cursors and scanners do in front of given characters, where no read fails.

* `Cursor.Holds`: the characters a cursor has yet to read.
* `Cursor.foldWhile_of_holds`: a fold across lines is one over the characters.
* `Scanner.Scans`: an action that succeeds in front of given characters and leaves given ones.
* `scans_peek`, `scans_accept`, `scans_takeWhile`, `scans_skipBlanks`: the steps.
-/

namespace ExprLang

namespace Cursor

/-- What the cursor has yet to read are these characters. -/
def Holds (c : Cursor) (cs : List Char) : Prop :=
  ∃ rest, c.unread = .ofCharacters rest ∧ c.pending ++ rest = cs ∧ (c.ended = true → rest = [])

theorem holds_ofSource (text : String) : (ofSource (.ofString text)).Holds text.toList :=
  ⟨text.toList, Source.ofString_eq text, rfl, nofun⟩

theorem Holds.unique {c : Cursor} {xs ys : List Char} (hx : c.Holds xs) (hy : c.Holds ys) :
    xs = ys := by
  obtain ⟨rest, hu, rfl, -⟩ := hx
  obtain ⟨rest', hu', rfl, -⟩ := hy
  have h := congrArg (List.filterMap Delivery.byte?) (hu.symm.trans hu')
  rw [Source.filterMap_ofCharacters, Source.filterMap_ofCharacters] at h
  have hd := congrArg Source.decode h
  rw [Source.decode_utf8Encode, Source.decode_utf8Encode] at hd
  injection hd with hd
  rw [String.ofList_injective hd]

/-- Behind a fetch, no character is pending only at the end. -/
theorem fill_of_holds {c : Cursor} {cs : List Char} (h : c.Holds cs) :
    ∃ d, fill c = .ok () d ∧ d.Holds cs ∧ d.pending.head? = cs.head? := by
  obtain ⟨rest, hu, hcs, he⟩ := h
  unfold fill
  by_cases hf : (c.pending.isEmpty && !c.ended) = true
  · rw [if_pos hf, hu]
    obtain ⟨hp, hn⟩ := Bool.and_eq_true_iff.mp hf
    rw [List.isEmpty_iff.mp hp, List.nil_append] at hcs
    subst hcs
    by_cases hr : rest = []
    · subst hr
      rw [Source.ofCharacters_nil, Source.readLine_nil]
      refine ⟨_, rfl, ⟨[], rfl, ?_, fun _ => rfl⟩, ?_⟩
      · rw [List.isEmpty_iff.mp hp]
        rfl
      · rw [List.isEmpty_iff.mp hp]
    · obtain ⟨line, others, hne, rfl, hl⟩ := Source.readLine_ofCharacters hr
      rw [hl]
      refine ⟨_, rfl, ⟨others, rfl, ?_, fun he => ?_⟩, ?_⟩
      · rw [String.toList_ofList]
      · rw [show c.ended = true from he] at hn
        cases hn
      · obtain ⟨ch, line, rfl⟩ := List.exists_cons_of_ne_nil hne
        rw [String.toList_ofList]
        rfl
  · rw [if_neg hf]
    refine ⟨c, rfl, ⟨rest, hu, hcs, he⟩, ?_⟩
    rw [← hcs]
    rcases hp : c.pending with _ | ⟨ch, others⟩
    · have hended : c.ended = true := by simpa [hp] using hf
      rw [he hended]
      rfl
    · rfl

theorem peek_of_holds {c : Cursor} {cs : List Char} (h : c.Holds cs) :
    ∃ d, peek c = .ok cs.head? d ∧ d.Holds cs := by
  obtain ⟨d, hd, hcs, hh⟩ := fill_of_holds h
  refine ⟨d, ?_, hcs⟩
  simp only [peek, bind, EStateM.bind, hd, ← hh]
  rfl

theorem read_of_holds {c : Cursor} {ch : Char} {cs : List Char} (h : c.Holds (ch :: cs)) :
    ∃ d, read c = .ok (some ch) d ∧ d.Holds cs := by
  obtain ⟨d, hd, ⟨rest, hu, hcs, he⟩, hh⟩ := fill_of_holds h
  obtain ⟨others, hp⟩ := List.head?_eq_some_iff.mp hh
  rw [hp, List.cons_append] at hcs
  refine ⟨{ d with pending := others }, ?_, ⟨rest, hu, (List.cons.inj hcs).2, he⟩⟩
  simp only [read, bind, EStateM.bind, hd]
  change EStateM.Result.ok d.pending.head? { d with pending := d.pending.tail } = _
  rw [hp]
  rfl

/-! ## Folds -/

variable {β : Type}

theorem foldFront_append (step : β → Char → Option β) (b : β) (xs ys : List Char) :
    foldFront step b (xs ++ ys) =
      if (foldFront step b xs).2 = [] then foldFront step (foldFront step b xs).1 ys
      else ((foldFront step b xs).1, (foldFront step b xs).2 ++ ys) := by
  induction xs generalizing b with
  | nil => rfl
  | cons x xs ih =>
    rw [List.cons_append, foldFront, foldFront]
    split
    · exact ih _
    · rfl

theorem foldWhile_of_holds (step : β → Char → Option β) (b : β) {c : Cursor} {cs : List Char}
    (h : c.Holds cs) :
    (c.foldWhile step b).value = (foldFront step b cs).1 ∧
      (c.foldWhile step b).fault = none ∧
        (c.foldWhile step b).cursor.Holds (foldFront step b cs).2 := by
  fun_induction foldWhile step b c generalizing cs with
  | case1 b c b' ch others hf =>
    obtain ⟨rest, hu, rfl, he⟩ := h
    rw [foldFront_append, hf]
    exact ⟨rfl, rfl, rest, hu, rfl, he⟩
  | case2 b c b' hf hended =>
    obtain ⟨rest, hu, rfl, he⟩ := h
    rw [he hended, List.append_nil, hf]
    exact ⟨rfl, rfl, [], he hended ▸ hu, rfl, fun _ => rfl⟩
  | case3 b c b' hf _ others hr =>
    obtain ⟨rest, hu, rfl, he⟩ := h
    obtain ⟨hn, rfl⟩ := Source.eq_nil_of_readLine_finished hr
    rw [Source.eq_nil_of_ofCharacters (hu.symm.trans hn), List.append_nil, hf]
    exact ⟨rfl, rfl, [], rfl, rfl, fun _ => rfl⟩
  | case4 b c b' hf _ text others hr =>
    obtain ⟨rest, hu, rfl, he⟩ := h
    by_cases hrest : rest = []
    · rw [hu, hrest] at hr
      cases hr
    · obtain ⟨line, more, -, -, hl⟩ := Source.readLine_ofCharacters hrest
      rw [hu, hl] at hr
      cases hr
  | case5 b c b' hf _ text others hr ih =>
    obtain ⟨rest, hu, rfl, he⟩ := h
    by_cases hrest : rest = []
    · rw [hu, hrest] at hr
      cases hr
    · obtain ⟨line, more, -, rfl, hl⟩ := Source.readLine_ofCharacters hrest
      rw [hu, hl] at hr
      cases hr
      -- the whole line is taken, and the fold goes on in the next one
      rw [foldFront_append, hf]
      refine ih ⟨more, rfl, ?_, fun he => absurd he Bool.false_ne_true⟩
      rw [String.toList_ofList]

/-- The fold has to stop in front of these characters. -/
def Stops (p : Char → Bool) (cs : List Char) : Prop := ∀ c ∈ cs.head?, p c = false

/-- A fold that takes what has a property, and is in front of a run of such characters. -/
theorem foldFront_run {p : Char → Bool} (step : β → Char → Option β) {front rest : List Char}
    (htakes : ∀ b c, p c = true → ∃ b', step b c = some b')
    (hstops : ∀ b c, p c = false → step b c = none) (hf : ∀ c ∈ front, p c = true)
    (hr : Stops p rest) (b : β) : (foldFront step b (front ++ rest)).2 = rest := by
  induction front generalizing b with
  | nil =>
    cases rest with
    | nil => rfl
    | cons c rest => rw [List.nil_append, foldFront, hstops b c (hr c rfl)]
  | cons c front ih =>
    obtain ⟨hc, hfront⟩ := List.forall_mem_cons.mp hf
    obtain ⟨b', hb⟩ := htakes b c hc
    rw [List.cons_append, foldFront, hb]
    exact ih hfront b'

theorem foldFront_push {p : Char → Bool} {front rest : List Char}
    (hf : ∀ c ∈ front, p c = true) (hr : Stops p rest) (text : String) :
    foldFront (fun text c => if p c then some (text.push c) else none) text (front ++ rest) =
      (text ++ String.ofList front, rest) := by
  induction front generalizing text with
  | nil =>
    cases rest with
    | nil => simp [foldFront]
    | cons c rest => simp [foldFront, hr c rfl]
  | cons c front ih =>
    obtain ⟨hc, hfront⟩ := List.forall_mem_cons.mp hf
    rw [List.cons_append, foldFront, if_pos hc]
    refine (ih hfront _).trans (congrArg (·, rest) (String.toList_inj.mp ?_))
    simp

end Cursor

namespace Scanner

open Cursor

variable {α β : Type}

/-- In front of `cs` the action succeeds with what `P` describes, and `rest` is left. -/
def Scans (x : ScanM α) (cs : List Char) (P : α → Prop) (rest : List Char) : Prop :=
  ∀ s, s.cursor.Holds cs → ∃ a t, x s = .ok a t ∧ P a ∧ t.cursor.Holds rest

/-! ## Composed actions -/

theorem Scans.pure {a : α} {cs : List Char} {P : α → Prop} (h : P a) :
    Scans (Pure.pure a) cs P cs := fun s hs => ⟨a, s, rfl, h, hs⟩

theorem Scans.bind {x : ScanM α} {f : α → ScanM β} {cs mid rest : List Char} {P : α → Prop}
    {Q : β → Prop} (hx : Scans x cs P mid) (hf : ∀ a, P a → Scans (f a) mid Q rest) :
    Scans (x >>= f) cs Q rest := by
  intro s hs
  obtain ⟨a, t, hx, ha, ht⟩ := hx s hs
  obtain ⟨b, u, hu, hb⟩ := hf a ha t ht
  exact ⟨b, u, bind_eq_ok_iff.mpr ⟨a, t, hx, hu⟩, hb⟩

theorem Scans.map {x : ScanM α} {f : α → β} {cs rest : List Char} {P : α → Prop} {Q : β → Prop}
    (hx : Scans x cs P rest) (hf : ∀ a, P a → Q (f a)) : Scans (f <$> x) cs Q rest := by
  intro s hs
  obtain ⟨a, t, hx, ha, ht⟩ := hx s hs
  exact ⟨f a, t, map_eq_ok_iff.mpr ⟨a, hx, rfl⟩, hf a ha, ht⟩

theorem scans_get {f : Scanner → ScanM β} {cs rest : List Char} {Q : β → Prop}
    (h : ∀ s, Scans (f s) cs Q rest) : Scans (MonadState.get >>= f) cs Q rest := by
  intro s hs
  obtain ⟨b, t, hb⟩ := h s s hs
  exact ⟨b, t, bind_eq_ok_iff.mpr ⟨s, s, rfl, hb.1⟩, hb.2⟩

/-! ## Steps -/

theorem scans_ofCursor {action : CursorM α} {cs rest : List Char} {a : α}
    (h : ∀ c : Cursor, c.Holds cs → ∃ d, action c = .ok a d ∧ d.Holds rest) :
    Scans (ofCursor action) cs (a = ·) rest := by
  intro s hs
  obtain ⟨d, hd, hrest⟩ := h s.cursor hs
  refine ⟨a, { s with cursor := d }, ?_, rfl, hrest⟩
  unfold ofCursor
  rw [hd]

theorem scans_peek {cs : List Char} : Scans peek cs (cs.head? = ·) cs :=
  scans_ofCursor fun _ h => peek_of_holds h

theorem scans_accept {c : Char} {cs : List Char} : Scans (accept c) (c :: cs) (true = ·) cs := by
  refine .bind scans_peek ?_
  rintro _ rfl
  rw [if_pos List.head?_cons]
  refine .bind (.map (P := (some c = ·)) (Q := fun _ => True) ?_ fun _ _ => trivial) fun _ _ =>
    .pure rfl
  exact scans_ofCursor fun _ h => read_of_holds h

theorem scans_accept_other {c : Char} {cs : List Char} (h : cs.head? ≠ some c) :
    Scans (accept c) cs (false = ·) cs := by
  refine .bind scans_peek ?_
  rintro _ rfl
  rw [if_neg h]
  exact .pure rfl

theorem scans_foldWhile (step : β → Char → Option β) (b : β) (cs : List Char) :
    Scans (foldWhile step b) cs ((foldFront step b cs).1 = ·) (foldFront step b cs).2 := by
  intro s hs
  obtain ⟨hv, hf, hc⟩ := foldWhile_of_holds step b hs
  refine ⟨_, { s with cursor := (s.cursor.foldWhile step b).cursor }, ?_, hv.symm, hc⟩
  unfold foldWhile
  simp only [hf]

theorem scans_takeWhile {p : Char → Bool} {front rest : List Char}
    (hf : ∀ c ∈ front, p c = true) (hr : Stops p rest) :
    Scans (takeWhile p) (front ++ rest) (String.ofList front = ·) rest := by
  have h := scans_foldWhile (fun text c => if p c then some (text.push c) else none) ""
    (front ++ rest)
  rw [foldFront_push hf hr, String.empty_append] at h
  exact h

theorem scans_skipBlanks {front rest : List Char} (hf : ∀ c ∈ front, Unicode.isBlank c = true)
    (hr : Stops Unicode.isBlank rest) :
    Scans skipBlanks (front ++ rest) (fun _ => True) rest := by
  intro s hs
  obtain ⟨-, hn, hc⟩ := foldWhile_of_holds blankStep s.line hs
  rw [foldFront_run blankStep (fun b c hb => ⟨_, if_pos hb⟩)
    (fun b c hb => if_neg (by rw [hb]; decide)) hf hr] at hc
  refine ⟨(), ⟨_, (s.cursor.foldWhile blankStep s.line).value⟩, ?_, trivial, hc⟩
  unfold skipBlanks
  simp only [hn]

end Scanner

end ExprLang
