import Mathlib.Algebra.Group.Nat.Defs
import Mathlib.Data.List.Count
import Mathlib.Data.List.TakeWhile
import ExprLang.Progress
import ExprLang.Proofs.Lexing.Lines
import ExprLang.Source.Cursor

/-!
# Counting lines

The line behind characters is counted off by their line feeds, in 32 bits. How many line feeds may
still come says how far a counter can get.

* `lineBehind`: the line on which one stands behind characters, with `lineBehind_append` and
  `lineBehind_of_notMem`.
* `toNat_lineBehind`: the number itself, unless there are so many that the counter starts over.
* `Source.lineFeeds`, `Cursor.lineFeeds`: the line feeds to come, of which reading takes at least
  those that it finds (`lineFeeds_readLine_le`, `lineFeeds_foldWhile_le`).
-/

namespace ExprLang

/-! ## The line behind characters -/

/-- The line on which one stands behind characters that begin on `line`. -/
def lineBehind (line : UInt32) (cs : List Char) : UInt32 := line + UInt32.ofNat (cs.count '\n')

variable {line : UInt32} {cs : List Char}

theorem lineBehind_nil (line : UInt32) : lineBehind line [] = line := UInt32.add_zero line

theorem lineBehind_cons (line : UInt32) (c : Char) (cs : List Char) :
    lineBehind line (c :: cs) = lineBehind (if c = '\n' then line + 1 else line) cs := by
  unfold lineBehind
  by_cases hc : c = '\n'
  · subst hc
    rw [if_pos rfl, List.count_cons_self, Nat.add_comm, UInt32.ofNat_add, UInt32.add_assoc]
    rfl
  · rw [if_neg hc, List.count_cons_of_ne hc]

theorem lineBehind_append (line : UInt32) (front behind : List Char) :
    lineBehind line (front ++ behind) = lineBehind (lineBehind line front) behind := by
  unfold lineBehind
  rw [List.count_append, UInt32.ofNat_add, UInt32.add_assoc]

theorem lineBehind_of_notMem (h : '\n' ∉ cs) : lineBehind line cs = line := by
  unfold lineBehind
  rw [List.count_eq_zero.mpr h]
  exact UInt32.add_zero line

theorem lineBehind_add (line n : UInt32) (cs : List Char) :
    lineBehind (line + n) cs = lineBehind line cs + n := by
  unfold lineBehind
  rw [UInt32.add_assoc, UInt32.add_comm n, ← UInt32.add_assoc]

/-- **The line is counted exactly** as long as the counter does not start over. -/
theorem toNat_lineBehind (h : line.toNat + cs.count '\n' < 2 ^ 32) :
    (lineBehind line cs).toNat = line.toNat + cs.count '\n' := by
  have hcount : cs.count '\n' < 2 ^ 32 := by omega
  unfold lineBehind
  rw [UInt32.toNat_add, UInt32.toNat_ofNat_of_lt' hcount, Nat.mod_eq_of_lt h]

theorem toNat_lineBehind_one (h : cs.count '\n' < 2 ^ 32 - 1) :
    (lineBehind 1 cs).toNat = 1 + cs.count '\n' :=
  toNat_lineBehind (show 1 + cs.count '\n' < 2 ^ 32 by omega)

/-! ## Line feeds to come -/

namespace Source

/-- The line feeds that a source delivers. -/
def lineFeeds (s : Source) : Nat := s.count (.byte lineFeed)

/-- What bytes are decoded to is encoded by these bytes. -/
theorem flatMap_of_decode {bytes : List UInt8} {text : String} (h : decode bytes = .line text) :
    text.toList.flatMap String.utf8EncodeChar = bytes := by
  unfold decode String.fromUTF8? at h
  split at h
  · next ht =>
    cases h
    split at ht
    · next hv =>
      cases ht
      have hbytes : (String.fromUTF8 bytes.toByteArray hv).toList.utf8Encode = bytes.toByteArray :=
        String.utf8Encode_toList
      have hdata := congrArg (fun b => b.data.toList) hbytes
      simpa only [List.utf8Encode, List.toList_data_toByteArray] using hdata
    · cases ht
  · cases h

/-- Line feeds are encoded as such, and nothing else is. -/
theorem count_flatMap (cs : List Char) :
    (cs.flatMap String.utf8EncodeChar).count lineFeed = cs.count '\n' := by
  induction cs with
  | nil => rfl
  | cons c cs ih =>
    rw [List.flatMap_cons, List.count_append, ih]
    by_cases hc : c = '\n'
    · subst hc
      have hfeed : (String.utf8EncodeChar '\n').count lineFeed = 1 := by decide
      rw [List.count_cons_self, hfeed, Nat.add_comm]
    · have hother : (String.utf8EncodeChar c).count lineFeed = 0 :=
        List.count_eq_zero.mpr fun hmem => ne_lineFeed_of_mem hc hmem rfl
      rw [List.count_cons_of_ne hc, hother, Nat.zero_add]

theorem lineFeeds_ofString (text : String) :
    (ofString text).lineFeeds = text.toList.count '\n' := by
  have hinjective : Function.Injective Delivery.byte := fun _ _ => Delivery.byte.inj
  rw [ofString_eq, ← count_flatMap]
  exact List.count_map_of_injective _ _ hinjective _

/-- A line takes the line feeds that are in it. -/
theorem lineFeeds_readLine_le {s : Source} {text : String} {rest : Source}
    (h : readLine s = (.line text, rest)) :
    text.toList.count '\n' + rest.lineFeeds ≤ s.lineFeeds := by
  have hfront :
      ((s.takeWhile Delivery.withinLine).filterMap Delivery.byte?).count lineFeed = 0 := by
    refine List.count_eq_zero.mpr fun hmem => ?_
    obtain ⟨d, hd, hb⟩ := List.mem_filterMap.mp hmem
    have hwithin := List.mem_takeWhile_imp hd
    cases d with
    | byte b =>
      obtain rfl : b = lineFeed := Option.some.inj hb
      exact absurd hwithin (by decide)
    | fault text => cases hb
  have hsplit : s.takeWhile Delivery.withinLine ++ s.dropWhile Delivery.withinLine = s :=
    List.takeWhile_append_dropWhile
  have hcount : s.lineFeeds = (s.takeWhile Delivery.withinLine).count (.byte lineFeed) +
      (s.dropWhile Delivery.withinLine).count (.byte lineFeed) := by
    rw [← List.count_append, hsplit]
    rfl
  simp only [readLine] at h
  split at h
  · cases h
  · split at h
    · next b behind hd =>
      obtain ⟨htext, rfl⟩ := Prod.mk.inj h
      have hb : (Delivery.byte b).withinLine = false := by
        have := List.head?_dropWhile_not Delivery.withinLine s
        simpa [hd] using this
      obtain rfl : b = lineFeed := by simpa [Delivery.withinLine] using hb
      have hle := count_flatMap text.toList
      rw [flatMap_of_decode htext, List.count_append, hfront, List.count_singleton_self] at hle
      rw [hcount, hd, List.count_cons_self]
      change _ + behind.count _ ≤ _
      omega
    · cases h
    · obtain ⟨htext, rfl⟩ := Prod.mk.inj h
      have hle := count_flatMap text.toList
      rw [flatMap_of_decode htext, hfront] at hle
      change _ + ([] : List Delivery).count _ ≤ _
      rw [List.count_nil]
      omega

theorem lineFeeds_le_of_readLine {s : Source} {r : LineRead} {rest : Source}
    (h : readLine s = (r, rest)) : rest.lineFeeds ≤ s.lineFeeds := by
  refine List.Sublist.count_le _ ?_
  simp only [readLine] at h
  split at h
  · obtain ⟨-, rfl⟩ := Prod.mk.inj h
    exact List.nil_sublist s
  · have hsuffix := (List.dropWhile_suffix (l := s) Delivery.withinLine).sublist
    split at h
    · next hd =>
      obtain ⟨-, rfl⟩ := Prod.mk.inj h
      rw [hd] at hsuffix
      exact List.sublist_of_cons_sublist hsuffix
    · next hd =>
      obtain ⟨-, rfl⟩ := Prod.mk.inj h
      rw [hd] at hsuffix
      exact List.sublist_of_cons_sublist hsuffix
    · obtain ⟨-, rfl⟩ := Prod.mk.inj h
      exact List.nil_sublist s

end Source

namespace Cursor

/-- The line feeds that a cursor has in front of it, at most. -/
def lineFeeds (c : Cursor) : Nat := c.pending.count '\n' + c.unread.lineFeeds

theorem lineFeeds_fill_le {c c' : Cursor} (h : fill c = .ok () c') :
    c'.lineFeeds ≤ c.lineFeeds := by
  simp only [fill] at h
  split at h
  · split at h
    · next rest hr =>
      cases h
      exact Nat.add_le_add_left (Source.lineFeeds_le_of_readLine hr) _
    · next text rest hr =>
      cases h
      exact Nat.le_trans (Source.lineFeeds_readLine_le hr) (Nat.le_add_left ..)
    · cases h
  · cases h
    exact Nat.le_refl _

theorem lineFeeds_peek_le {c c' : Cursor} {r : Option Char} (h : peek c = .ok r c') :
    c'.lineFeeds ≤ c.lineFeeds := lineFeeds_fill_le (peek_eq_ok h).1

theorem lineFeeds_read_le {c c' : Cursor} {r : Option Char} (h : read c = .ok r c') :
    c'.lineFeeds ≤ c.lineFeeds := by
  obtain ⟨_, d, hfill, h⟩ := bind_eq_ok_iff.mp h
  cases h
  have htail : d.pending.tail.count '\n' ≤ d.pending.count '\n' :=
    (List.tail_sublist d.pending).count_le _
  exact Nat.le_trans (Nat.add_le_add_right htail _) (lineFeeds_fill_le hfill)

theorem count_foldFront_le {β : Type} (step : β → Char → Option β) (b : β) (cs : List Char) :
    (foldFront step b cs).2.count '\n' ≤ cs.count '\n' := by
  induction cs generalizing b with
  | nil => exact Nat.le_refl _
  | cons c cs ih =>
    rw [foldFront]
    split
    · exact Nat.le_trans (ih _) ((List.sublist_cons_self c cs).count_le _)
    · exact Nat.le_refl _

theorem lineFeeds_foldWhile_le {β : Type} (step : β → Char → Option β) (b : β) (c : Cursor) :
    (c.foldWhile step b).cursor.lineFeeds ≤ c.lineFeeds := by
  fun_induction foldWhile step b c with
  | case1 b c b' ch rest h =>
    have := count_foldFront_le step b c.pending
    rw [h] at this
    exact Nat.add_le_add_right this _
  | case2 b c b' h he => simp [lineFeeds]
  | case3 b c b' h he rest hr | case4 b c b' h he text rest hr =>
    have := Source.lineFeeds_le_of_readLine hr
    simp only [lineFeeds, List.count_nil]
    omega
  | case5 b c b' h he text rest hr ih =>
    exact ih.trans (Nat.le_trans (Source.lineFeeds_readLine_le hr) (Nat.le_add_left ..))

end Cursor

end ExprLang
