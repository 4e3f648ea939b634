import ExprLang.Source

/-!
# The lines of a text

A source that delivers the bytes of a text is read line by line as the text itself.

* `Source.ofCharacters`: the source of a list of characters.
* `ne_lineFeed_of_mem`: the bytes of other characters are not taken for a line feed.
* **`readLine_ofCharacters`**: a line is a prefix of the characters, and the others are left.
-/

namespace ExprLang

theorem toList_loop_eq (bytes : ByteArray) (i : Nat) (found : List UInt8) :
    ByteArray.toList.loop bytes i found = found.reverse ++ bytes.data.toList.drop i := by
  fun_induction ByteArray.toList.loop bytes i found with
  | case1 i found h ih =>
    have hlt : i < bytes.data.toList.length := by simpa using h
    rw [ih, List.drop_eq_getElem_cons hlt, List.reverse_cons, List.append_assoc]
    congr 2
    simp [ByteArray.get!, getElem!_pos, h]
  | case2 i found h =>
    have hle : bytes.data.toList.length ≤ i := by simpa using h
    rw [List.drop_eq_nil_of_le hle, List.append_nil]

theorem toList_eq_data (bytes : ByteArray) : bytes.toList = bytes.data.toList :=
  toList_loop_eq bytes 0 []

/-- Only the line feed has a byte in common with it. -/
theorem ne_lineFeed_of_mem {c : Char} (hc : c ≠ '\n') {b : UInt8}
    (hb : b ∈ String.utf8EncodeChar c) : b ≠ lineFeed := by
  have hn : c.val.toNat ≠ 10 := fun h => hc (Char.ext (UInt32.toNat_inj.mp h))
  have hval : c.toNat = c.val.toNat := rfl
  rintro rfl
  unfold String.utf8EncodeChar lineFeed at hb
  simp only at hb
  split at hb
  · have hb := congrArg UInt8.toNat (List.mem_singleton.mp hb)
    have hten : UInt8.toNat 10 = 10 := rfl
    simp only [UInt8.toNat_ofNat'] at hb
    omega
  · split at hb
    · simp [← UInt8.toNat_inj] at hb
      omega
    · split at hb <;> simp [← UInt8.toNat_inj] at hb <;> omega

namespace Source

/-- The source that delivers the bytes of characters. -/
def ofCharacters (cs : List Char) : Source := ofBytes (cs.flatMap String.utf8EncodeChar)

theorem ofString_eq (text : String) : ofString text = ofCharacters text.toList := by
  unfold ofString ofCharacters
  rw [String.toUTF8_eq_toByteArray, ← String.utf8Encode_toList, toList_eq_data]
  exact congrArg ofBytes List.toList_data_toByteArray

theorem decode_utf8Encode (cs : List Char) :
    decode (cs.flatMap String.utf8EncodeChar) = .line (String.ofList cs) := by
  unfold decode String.fromUTF8?
  have h : (cs.flatMap String.utf8EncodeChar).toByteArray = (String.ofList cs).toByteArray :=
    String.toByteArray_ofList.symm
  rw [dif_pos (h ▸ (String.ofList cs).isValidUTF8)]
  exact congrArg LineRead.line (String.toByteArray_inj.mp h)

theorem ofCharacters_append (xs ys : List Char) :
    ofCharacters (xs ++ ys) = ofCharacters xs ++ ofCharacters ys := by
  unfold ofCharacters ofBytes
  rw [List.flatMap_append, List.map_append]

theorem ofCharacters_nil : ofCharacters [] = [] := rfl

theorem eq_nil_of_ofCharacters {cs : List Char} (h : ofCharacters cs = []) : cs = [] := by
  cases cs with
  | nil => rfl
  | cons c cs =>
    rw [← List.singleton_append, ofCharacters_append] at h
    have hbytes := List.map_eq_nil_iff.mp (List.append_eq_nil_iff.mp h).1
    rw [List.flatMap_singleton] at hbytes
    exact absurd hbytes String.utf8EncodeChar_ne_nil

theorem filterMap_ofCharacters (cs : List Char) :
    (ofCharacters cs).filterMap Delivery.byte? = cs.flatMap String.utf8EncodeChar := by
  unfold ofCharacters ofBytes
  rw [List.filterMap_map]
  exact List.filterMap_some

theorem withinLine_of_mem {cs : List Char} (h : '\n' ∉ cs) :
    ∀ d ∈ ofCharacters cs, d.withinLine = true := by
  intro d hd
  obtain ⟨b, hb, rfl⟩ := List.mem_map.mp hd
  obtain ⟨c, hc, hb⟩ := List.mem_flatMap.mp hb
  exact bne_iff_ne.mpr (ne_lineFeed_of_mem (ne_of_mem_of_not_mem hc h) hb)

/-- **A text is read line by line**: a line is a prefix that is not empty. -/
theorem readLine_ofCharacters {cs : List Char} (h : cs ≠ []) :
    ∃ line rest, line ≠ [] ∧ line ++ rest = cs ∧
      readLine (ofCharacters cs) = (.line (String.ofList line), ofCharacters rest) := by
  unfold readLine
  rw [if_neg fun hn => h (eq_nil_of_ofCharacters (List.isEmpty_iff.mp hn))]
  by_cases hc : '\n' ∈ cs
  · obtain ⟨front, rest, rfl, hfront⟩ := List.eq_append_cons_of_mem hc
    refine ⟨front ++ ['\n'], rest, by simp, by simp, ?_⟩
    have hwithin := withinLine_of_mem hfront
    have hsplit : ofCharacters (front ++ '\n' :: rest) =
        ofCharacters front ++ .byte lineFeed :: ofCharacters rest := ofCharacters_append _ _
    have hlf : ¬(Delivery.byte lineFeed).withinLine = true := by decide
    rw [hsplit, List.takeWhile_append_of_pos hwithin, List.dropWhile_append_of_pos hwithin,
      List.takeWhile_cons_of_neg hlf, List.dropWhile_cons_of_neg hlf, List.append_nil,
      filterMap_ofCharacters]
    have hd := decode_utf8Encode (front ++ ['\n'])
    rw [List.flatMap_append] at hd
    exact congrArg (·, ofCharacters rest) hd
  · refine ⟨cs, [], h, List.append_nil _, ?_⟩
    have hwithin := withinLine_of_mem hc
    have hnil : ofCharacters cs = ofCharacters cs ++ [] := (List.append_nil _).symm
    rw [hnil, List.takeWhile_append_of_pos hwithin, List.dropWhile_append_of_pos hwithin,
      List.takeWhile_nil, List.dropWhile_nil, List.append_nil, filterMap_ofCharacters]
    exact congrArg (·, []) (decode_utf8Encode cs)

end Source

end ExprLang
