/-!
# Sources

A source is what a reader delivers: bytes, and in between the failures of reads. It is taken line
by line (`Source.readLine`). A failure in the middle of a line costs the bytes of that line read
before it, and so does a line that is not UTF-8; the next line starts behind what was lost.

* `readLine_length_lt`: whatever is delivered, a line or a fault, shortens the source.
* `length_readLine_le`: the characters of a line are no more than the bytes they took.
-/

namespace ExprLang

/-- What a read of the underlying stream yields: a byte, or the text of its failure. -/
inductive Delivery where
  | byte (value : UInt8)
  | fault (text : String)
  deriving DecidableEq

/-- All that the underlying stream has yet to deliver. -/
abbrev Source := List Delivery

/-- What asking for a line gives: nothing any more, a line with its terminator, or a failure. -/
inductive LineRead where
  | finished
  | line (text : String)
  | fault (text : String)
  deriving DecidableEq

/-- The byte that ends a line. -/
def lineFeed : UInt8 := 10

/-- The failure of a line whose bytes are not UTF-8. -/
def malformedText : String := "stream did not contain valid UTF-8"

namespace Delivery

/-- Whether reading a line goes on behind this. -/
def withinLine : Delivery → Bool
  | byte b => b != lineFeed
  | fault _ => false

/-- The byte, if it is one. -/
def byte? : Delivery → Option UInt8
  | byte b => some b
  | fault _ => none

end Delivery

namespace Source

/-- The source of bytes that are all readable. -/
def ofBytes (bytes : List UInt8) : Source := bytes.map .byte

/-- The source of a text. -/
def ofString (text : String) : Source := ofBytes text.toUTF8.toList

/-- The text that bytes encode. -/
def decode (bytes : List UInt8) : LineRead :=
  match String.fromUTF8? bytes.toByteArray with
  | some text => .line text
  | none => .fault malformedText

/-- Reads up to and including the next line feed, or to the end, and gives what is left. -/
def readLine (s : Source) : LineRead × Source :=
  if s.isEmpty then (.finished, []) else
    let bytes := (s.takeWhile Delivery.withinLine).filterMap Delivery.byte?
    match s.dropWhile Delivery.withinLine with
    | .byte b :: rest => (decode (bytes ++ [b]), rest)
    | .fault text :: rest => (.fault text, rest)
    | [] => (decode bytes, [])

/-! ## Progress -/

theorem decode_ne_finished (bytes : List UInt8) : decode bytes ≠ .finished := by
  unfold decode
  split <;> simp

@[simp] theorem readLine_nil : readLine [] = (.finished, []) := rfl

theorem eq_nil_of_readLine_finished {s rest : Source} (h : readLine s = (.finished, rest)) :
    s = [] ∧ rest = [] := by
  simp only [readLine] at h
  split at h
  · next hs => exact ⟨List.isEmpty_iff.mp hs, (congrArg Prod.snd h).symm⟩
  · split at h
    · exact absurd (congrArg Prod.fst h) (decode_ne_finished _)
    · cases h
    · exact absurd (congrArg Prod.fst h) (decode_ne_finished _)

private theorem length_dropWhile_add (p : Delivery → Bool) (s : Source) :
    (s.takeWhile p).length + (s.dropWhile p).length = s.length := by
  rw [← List.length_append, List.takeWhile_append_dropWhile]

/-- Whatever is delivered shortens the source. -/
theorem readLine_length_lt {s : Source} {r : LineRead} {rest : Source}
    (h : readLine s = (r, rest)) (hr : r ≠ .finished) : rest.length < s.length := by
  have hl := length_dropWhile_add Delivery.withinLine s
  simp only [readLine] at h
  split at h
  · cases h
    exact absurd rfl hr
  · next hs =>
    split at h
    · next hd =>
      rw [hd, List.length_cons] at hl
      cases h
      omega
    · next hd =>
      rw [hd, List.length_cons] at hl
      cases h
      omega
    · cases h
      exact List.length_pos_iff.mpr fun hn => hs (List.isEmpty_iff.mpr hn)

theorem length_le_size_utf8Encode (cs : List Char) : cs.length ≤ cs.utf8Encode.size := by
  induction cs with
  | nil => simp
  | cons c cs ih =>
    rw [List.utf8Encode_cons, ByteArray.size_append, List.length_cons]
    have : 1 ≤ [c].utf8Encode.size := by
      have := c.utf8Size_pos
      simp [List.utf8Encode]
      omega
    omega

theorem length_decode_le {bytes : List UInt8} {text : String} (h : decode bytes = .line text) :
    text.toList.length ≤ bytes.length := by
  unfold decode at h
  split at h
  · next t ht =>
    cases h
    simp only [String.fromUTF8?] at ht
    split at ht
    · cases ht
      next hv =>
        have := length_le_size_utf8Encode (String.fromUTF8 bytes.toByteArray hv).toList
        have hs : (String.fromUTF8 bytes.toByteArray hv).utf8ByteSize = bytes.length := by
          simp [String.fromUTF8, String.utf8ByteSize]
        simpa [hs] using this
    · cases ht
  · cases h

/-- The characters of a line are no more than the bytes they took. -/
theorem length_readLine_le {s : Source} {text : String} {rest : Source}
    (h : readLine s = (.line text, rest)) : text.toList.length + rest.length ≤ s.length := by
  have hl := length_dropWhile_add Delivery.withinLine s
  have hf := List.length_filterMap_le Delivery.byte? (s.takeWhile Delivery.withinLine)
  simp only [readLine] at h
  split at h
  · cases h
  · split at h
    · next b t hd =>
      rw [hd, List.length_cons] at hl
      obtain ⟨ht, hrest⟩ := Prod.mk.inj h
      have := length_decode_le ht
      rw [List.length_append, List.length_singleton] at this
      rw [← hrest]
      omega
    · cases h
    · next hd =>
      rw [hd, List.length_nil] at hl
      obtain ⟨ht, hrest⟩ := Prod.mk.inj h
      have := length_decode_le ht
      rw [← hrest, List.length_nil]
      omega

end Source

end ExprLang
