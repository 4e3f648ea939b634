import ExprLang.Proofs.Lexing.Scans
import ExprLang.Proofs.Reading.Tape

/-!
# Losses

The tape of a source is that of its parts, where these are lines. A text is read as its characters,
and what is lost as a whole is read as one loss.

* **`readings_append`**: a source behind one that ends with a line.
* `readings_ofCharacters`, `Cursor.tape_of_holds`: the tape of a text.
* `Lost`, **`Lost.readings`**: what is lost, in front of the rest of a source.
-/

namespace ExprLang

namespace Source

theorem stretches_ne_nil {s : Source} (h : s ≠ []) : s.stretches ≠ [] := by
  cases s with
  | nil => exact absurd rfl h
  | cons d rest =>
    rw [stretches]
    split
    · split <;> exact List.cons_ne_nil _ _
    · exact List.cons_ne_nil _ _

theorem stretches_append {front : Source} (h : ∀ d ∈ front.getLast?, d.withinLine = false)
    (rest : Source) : (front ++ rest).stretches = front.stretches ++ rest.stretches := by
  induction front with
  | nil => rfl
  | cons d front ih =>
    by_cases hfront : front = []
    · have hd : d.withinLine = false := h d (by simp [hfront])
      simp [hfront, stretches, hd]
    · have hlast : ∀ x ∈ front.getLast?, x.withinLine = false := by
        intro x hx
        refine h x ?_
        rw [List.getLast?_cons, Option.mem_def.mp hx]
        rfl
      obtain ⟨first, others, hs⟩ := List.exists_cons_of_ne_nil (stretches_ne_nil hfront)
      rw [List.cons_append, stretches, stretches, ih hlast, hs]
      split <;> rfl

theorem readings_append {front : Source} (h : ∀ d ∈ front.getLast?, d.withinLine = false)
    (rest : Source) : (front ++ rest).readings = front.readings ++ rest.readings := by
  unfold readings
  rw [stretches_append h, List.flatMap_append]

theorem readings_ofCharacters (cs : List Char) :
    (ofCharacters cs).readings = .ofCharacters cs := by
  induction hn : cs.length using Nat.strong_induction_on generalizing cs with
  | _ n ih =>
    by_cases hcs : cs = []
    · rw [hcs]
      rfl
    · obtain ⟨line, rest, hne, rfl, hline⟩ := readLine_ofCharacters hcs
      have hlength := List.length_pos_iff.mpr hne
      rw [List.length_append] at hn
      rw [readings_eq, hline, ih rest.length (by omega) rest rfl]
      simp [LineRead.readings, Tape.ofCharacters]

theorem withinLine_of_notMem {bytes : List UInt8} (h : lineFeed ∉ bytes) :
    ∀ d ∈ ofBytes bytes, d.withinLine = true := by
  intro d hd
  obtain ⟨b, hb, rfl⟩ := List.mem_map.mp hd
  exact bne_iff_ne.mpr (ne_of_mem_of_not_mem hb h)

theorem ends_ofString {text : String} (h : text = "" ∨ text.toList.getLast? = some '\n') :
    ∀ d ∈ (ofString text).getLast?, d.withinLine = false := by
  rcases h with rfl | h
  · have hempty : ofString "" = [] := ofString_eq ""
    rw [hempty]
    nofun
  · obtain ⟨front, hfront⟩ := List.getLast?_eq_some_iff.mp h
    have hfeed : ofCharacters ['\n'] = [.byte lineFeed] := by decide
    rw [ofString_eq, hfront, ofCharacters_append, hfeed, List.getLast?_concat]
    rintro d ⟨⟩
    rfl

end Source

theorem Cursor.tape_of_holds {c : Cursor} {cs : List Char} (h : c.Holds cs) :
    c.tape = .ofCharacters cs := by
  obtain ⟨rest, hunread, rfl, hended⟩ := h
  rw [tape, hunread, Source.readings_ofCharacters]
  by_cases he : c.ended = true
  · simp [he, hended he]
  · simp [he, Tape.ofCharacters]

/-! ## What is lost -/

/-- `Lost failure rest text`: in front of `rest`, `failure` is lost as a whole, and reported as
`text`. It is the front of a line and a failed read, or a line that is not UTF-8, up to its line
feed or the end. -/
inductive Lost : Source → Source → String → Prop
  | fault {bytes : List UInt8} {text : String} {rest : Source} (within : lineFeed ∉ bytes) :
      Lost (Source.ofBytes bytes ++ [.fault text]) rest text
  | line {bytes : List UInt8} {rest : Source} (within : lineFeed ∉ bytes)
      (malformed : String.fromUTF8? (bytes ++ [lineFeed]).toByteArray = none) :
      Lost (.ofBytes (bytes ++ [lineFeed])) rest malformedText
  | last {bytes : List UInt8} (within : lineFeed ∉ bytes)
      (malformed : String.fromUTF8? bytes.toByteArray = none) :
      Lost (.ofBytes bytes) [] malformedText

namespace Source

theorem decode_of_malformed {bytes : List UInt8}
    (h : String.fromUTF8? bytes.toByteArray = none) : decode bytes = .fault malformedText := by
  unfold decode
  rw [h]

/-- Bytes of one line that are not UTF-8 are lost. -/
theorem stretchReadings_of_malformed {bytes : List UInt8}
    (h : String.fromUTF8? bytes.toByteArray = none) :
    stretchReadings (ofBytes bytes) = [.lost malformedText] := by
  have hbytes : (ofBytes bytes).filterMap Delivery.byte? = bytes := by
    unfold ofBytes
    rw [List.filterMap_map]
    exact List.filterMap_some
  have hlast : ∀ text, (ofBytes bytes).getLast? ≠ some (.fault text) := by
    intro text hlast
    obtain ⟨b, -, hb⟩ := List.mem_map.mp (List.mem_of_getLast? hlast)
    cases hb
  rw [stretchReadings_eq_decode hlast, hbytes, decode_of_malformed h]
  rfl

end Source

/-- **A loss is one reading.** -/
theorem Lost.readings {failure rest : Source} {text : String} (h : Lost failure rest text) :
    (failure ++ rest).readings = .lost text :: rest.readings := by
  cases h with
  | @fault bytes text _ within =>
    rw [List.append_assoc, List.singleton_append,
      Source.readings_cut (Source.withinLine_of_notMem within) rfl, Source.stretchReadings_fault]
    rfl
  | @line bytes _ within malformed =>
    have hsplit : Source.ofBytes (bytes ++ [lineFeed]) =
        Source.ofBytes bytes ++ [.byte lineFeed] := List.map_append
    rw [hsplit, List.append_assoc, List.singleton_append,
      Source.readings_cut (Source.withinLine_of_notMem within) rfl, ← hsplit,
      Source.stretchReadings_of_malformed malformed]
    rfl
  | @last bytes within malformed =>
    have hne : Source.ofBytes bytes ≠ [] := by
      intro hnil
      have hdecode := Source.decode_of_malformed malformed
      rw [List.map_eq_nil_iff.mp hnil] at hdecode
      exact absurd (Source.decode_utf8Encode []) (by rw [List.flatMap_nil, hdecode]; nofun)
    rw [List.append_nil, Source.readings_of_within (Source.withinLine_of_notMem within) hne,
      Source.stretchReadings_of_malformed malformed]
    rfl

end ExprLang
