import ExprLang.Proofs.Parse.Exact
import ExprLang.Proofs.Printing.Formed
import ExprLang.Proofs.Printing.Lexed

/-!
# Printed programs are read back

* `tokenize_ofString`: a text of lexemes is tokenized into them.
* **`parse_printAll`**: a well-formed program is what its printed text is parsed as.
-/

namespace ExprLang.Grammar

open TokenStream

theorem tokenize_ofString {v : Vocabulary} {text : String} {lexemes : List (Kind × String)}
    (h : Lexes v text.toList lexemes) :
    ∃ tokens last stream, tokenize v (.ofSource (.ofString text)) = .ok (tokens ++ [last]) stream ∧
      tokens.map Token.lexeme = lexemes := by
  have hholds : (TokenStream.ofSource (.ofString text)).scanner.cursor.Holds text.toList :=
    Cursor.holds_ofSource text
  obtain ⟨tokens, last, hu, hl⟩ := h.upcoming hholds
  have hall := tokenize_eq (v := v) (.ofSource (.ofString text))
  rw [upcoming_of_none rfl, hu] at hall
  obtain ⟨-, stream, hs⟩ := hall
  exact ⟨tokens, last, stream, hs, hl⟩

/-- **A well-formed program is what its printed text is parsed as**, up to lines and the sizes of
types, if the nesting limit leaves the levels that each unit takes. By `Tree.unitLevels_le` three
times the height of the units is enough for that. -/
theorem parse_printAll {units : List Tree} {maxDepth : Nat}
    (h : WellFormed .standard .standard .root units)
    (hdepth : ∀ unit ∈ units, unit.unitLevels ≤ maxDepth) :
    ∃ found, (standard .standard .standard maxDepth).parse (.ofString (Tree.printAll units)) =
      .ok found ∧ Tree.sameAll units found = true := by
  have hg := isStandard_standard .standard maxDepth
  have hlexes := lexes_printAll h (.nil (List.forall_mem_nil _))
  rw [List.append_nil, List.append_nil] at hlexes
  obtain ⟨tokens, last, stream, ht, hl⟩ := tokenize_ofString hlexes
  obtain ⟨found, behind, hf, hsame⟩ := forms_of_wellFormed hg h .root
    (Tree.unitsLevels_le_iff.mpr hdepth) (Nat.le_refl maxDepth) hl
  exact ⟨found, parse_of_forms hg ht hf, hsame⟩

/-! ## An example -/

/-- Whether a text is tokenized, and into tokens of which one is this one. -/
def occursIn (v : Vocabulary) (text : String) (token : Token) : Bool :=
  match tokenize v (.ofSource (.ofString text)) with
  | .ok tokens _ => tokens.any (·.same token)
  | .error _ _ => false

theorem producible_of_occursIn {v : Vocabulary} {text : String} {token : Token}
    (h : occursIn v text token = true) : Producible v token := by
  unfold occursIn at h
  split at h
  · next tokens stream ht =>
    obtain ⟨found, hmem, hsame⟩ := List.any_eq_true.mp h
    exact ⟨_, tokens, stream, found, ht, hmem, hsame⟩
  · cases h

/-- `const a : Float = (2.5) ; \x7b var b : Bool ; ((b)=((a)<(1))) ; \x7d` -/
def sample : List Tree := [
  .assignment ⟨.assignment, "=", 1⟩ (some .float)
    (.declaration ⟨.identifier, "a", 1⟩ (some .float) false)
    (.literal ⟨.floatLiteral, "2.5", 1⟩ .float),
  .block [
    .declaration ⟨.identifier, "b", 1⟩ (some .bool) true,
    .assignment ⟨.assignment, "=", 1⟩ (some .bool)
      (.reference ⟨.identifier, "b", 1⟩ (some .bool) true)
      (.binary ⟨.less, "<", 1⟩ (some .bool)
        (.reference ⟨.identifier, "a", 1⟩ (some .float) false)
        (.literal ⟨.intLiteral, "1", 1⟩ .int))]]

theorem wellFormed_sample : WellFormed .standard .standard .root sample := by
  have ha : Producible .standard ⟨.identifier, "a", 1⟩ :=
    producible_of_occursIn (show occursIn .standard "a" _ = true by decide +kernel)
  have hb : Producible .standard ⟨.identifier, "b", 1⟩ :=
    producible_of_occursIn (show occursIn .standard "b" _ = true by decide +kernel)
  have hfloat : Producible .standard ⟨.floatLiteral, "2.5", 1⟩ :=
    producible_of_occursIn (show occursIn .standard "2.5" _ = true by decide +kernel)
  have hint : Producible .standard ⟨.intLiteral, "1", 1⟩ :=
    producible_of_occursIn (show occursIn .standard "1" _ = true by decide +kernel)
  have hequals : Registered .standard ⟨.assignment, "=", 1⟩ := by
    unfold Registered
    decide
  have hless : Registered .standard ⟨.less, "<", 1⟩ := by
    unfold Registered
    decide
  have hassign : TypingTable.standard.binary? .assignment .bool .bool = some .bool := by
    decide
  have hcompare : TypingTable.standard.binary? .less .float .int = some .bool := by decide
  refine .initialized ⟨rfl, ha, rfl, .float, by decide, rfl⟩ rfl hequals
    (.literal hfloat rfl rfl) ⟨rfl, rfl⟩ (.block (List.cons_ne_nil _ _) ?_ .nil)
  refine .bare ⟨rfl, hb, rfl, .bool, by decide, rfl⟩ (.expression ?_ .nil)
  refine .assignment rfl hequals (.reference rfl hb rfl rfl rfl) ?_ ⟨rfl, rfl⟩ hassign rfl
  exact .binary (by decide) (by decide) hless (.reference rfl ha rfl rfl rfl)
    (.literal hint rfl rfl) ⟨rfl, rfl⟩ hcompare rfl

theorem parse_printAll_sample :
    WellFormed .standard .standard .root sample ∧ (∀ unit ∈ sample, unit.unitLevels ≤ 10) ∧
      ∃ found, (standard .standard .standard 10).parse (.ofString (Tree.printAll sample)) =
        .ok found ∧ Tree.sameAll sample found = true :=
  ⟨wellFormed_sample, by decide, parse_printAll wellFormed_sample (by decide)⟩

end ExprLang.Grammar
