import ExprLang.Proofs.Language.Derivation
import ExprLang.Proofs.Parse.Phrase
import ExprLang.Proofs.Stream.Lexeme
import ExprLang.Vocabulary.Standard

/-!
# Kinds in the standard language

What the standard vocabulary and the standard rules say of each kind of token.

* `IsStandard`: a grammar of the standard language.
* `StandardPositions`: one whose operators may bind otherwise than there.
-/

namespace ExprLang

theorem Table.mem_of_find {κ α : Type} [DecidableEq κ] {k : κ} {a : α} {l : List (κ × α)}
    (h : find k l = some a) : (k, a) ∈ l := by
  induction l with
  | nil => cases h
  | cons e rest ih =>
    rw [find] at h
    split_ifs at h with hk
    · cases h
      rw [← hk]
      exact List.mem_cons_self
    · exact List.mem_cons_of_mem _ (ih h)

theorem Table.mem_of_get? {κ α : Type} [DecidableEq κ] {t : Table κ α} {k : κ} {a : α}
    (h : t.get? k = some a) : (k, a) ∈ t.entries := mem_of_find h

namespace Vocabulary

theorem isBefore_standard (k : Kind) : standard.isBefore k = decide (k ∈ signKinds) := by
  cases k <;> rfl

theorem isBetween_standard (k : Kind) : standard.isBetween k = decide (k ∈ infixKinds) := by
  cases k <;> rfl

theorem isAfter_standard (k : Kind) : standard.isAfter k = false := by
  cases k <;> rfl

theorem literalType?_standard (k : Kind) :
    (standard.literalType? k).isSome = decide (k ∈ literalKinds) := by
  cases k <;> rfl

/-- The kind of a keyword or an operator. -/
def reservedKind? : Reserved → Option Kind
  | .keyword kind => some kind
  | .dataType _ => none
  | .operator op => some op.kind

theorem reservedKind?_standard {lexeme : String} {reserved : Reserved}
    (h : standard.lookup lexeme = some reserved) : reservedKind? reserved ≠ some .typeName := by
  have hall : ∀ e ∈ standard.lexemes.entries, reservedKind? e.2 ≠ some .typeName := by
    decide
  exact hall _ (Table.mem_of_get? h)

theorem exists_of_operatorKind? {v : Vocabulary} {lexeme : String} {kind : Kind}
    (h : v.operatorKind? lexeme = some kind) :
    ∃ op, op.kind = kind ∧ (lexeme, .operator op) ∈ v.lexemes.entries := by
  unfold operatorKind? at h
  rcases hl : v.lookup lexeme with _ | _ | _ | op <;> rw [hl] at h
  · cases h
  · cases h
  · cases h
  · exact ⟨op, Option.some.inj h, Table.mem_of_get? hl⟩

theorem eq_of_operatorKind?_assignment {lexeme : String}
    (h : standard.operatorKind? lexeme = some .assignment) : lexeme = "=" := by
  obtain ⟨op, hk, hmem⟩ := exists_of_operatorKind? h
  have hall : ∀ e ∈ standard.lexemes.entries, reservedKind? e.2 = some .assignment → e.1 = "=" := by
    decide
  exact hall _ hmem (congrArg some hk)

theorem typeNamed?_of_classified {token : Token} (h : Classified standard token)
    (hk : token.kind = .typeName) : ∃ type, standard.typeNamed? token.value = some type := by
  unfold Classified classify operatorKind? at h
  unfold typeNamed?
  rw [hk] at h
  rcases hl : standard.lookup token.value with _ | kind | type | op <;> rw [hl] at h
  · simp at h
  · have := reservedKind?_standard hl
    simp_all [reservedKind?]
  · exact ⟨type, rfl⟩
  · have := reservedKind?_standard hl
    simp_all [reservedKind?]

end Vocabulary

namespace Grammar

/-- A grammar of the standard language, with any typing table and nesting limit. -/
structure IsStandard (g : Grammar) : Prop where
  vocabulary : g.vocabulary = .standard
  declarators : g.declarators = standardDeclarators
  operands : g.operands = standardOperands

theorem isStandard_standard (typing : TypingTable) (maxDepth : Nat) :
    (standard .standard typing maxDepth).IsStandard := ⟨rfl, rfl, rfl⟩

theorem operands_standard (k : Kind) :
    standardOperands.get? k =
      if k ∈ literalKinds then some .literal
      else if k = .identifier then some .symbol
      else if k = .openParen then some .grouping
      else none := by
  cases k <;> rfl

/-- A grammar whose operators stand where those of the standard language do, and whose operands are
read as there. How tightly the operators bind is left open. -/
structure StandardPositions (g : Grammar) : Prop where
  isBefore : ∀ k, g.vocabulary.isBefore k = decide (k ∈ signKinds)
  isBetween : ∀ k, g.vocabulary.isBetween k = decide (k ∈ infixKinds)
  isAfter : ∀ k, g.vocabulary.isAfter k = false
  operands : g.operands = standardOperands

namespace StandardPositions

variable {g : Grammar} (hg : g.StandardPositions)

include hg

theorem rule_eq (k : Kind) :
    g.operands.get? k =
      if k ∈ literalKinds then some .literal
      else if k = .identifier then some .symbol
      else if k = .openParen then some .grouping
      else none := by
  rw [hg.operands, operands_standard]

theorem mem_literalKinds {k : Kind} (h : g.operands.get? k = some .literal) :
    k ∈ literalKinds := by
  rw [hg.rule_eq] at h
  split_ifs at h with hk <;> cases h
  exact hk

theorem eq_identifier {k : Kind} (h : g.operands.get? k = some .symbol) : k = .identifier := by
  rw [hg.rule_eq] at h
  split_ifs at h with hl hk <;> cases h
  exact hk

theorem eq_openParen {k : Kind} (h : g.operands.get? k = some .grouping) : k = .openParen := by
  rw [hg.rule_eq] at h
  split_ifs at h with hl hs hk <;> cases h
  exact hk

theorem mem_signKinds {k : Kind} (h : g.vocabulary.isBefore k = true) : k ∈ signKinds := by
  rwa [hg.isBefore, decide_eq_true_eq] at h

theorem mem_infixKinds {inParen : Bool} {token : Token} (h : g.Continues inParen token) :
    token.kind ∈ infixKinds := by
  obtain ⟨previous, h⟩ := h
  have hb : g.vocabulary.isBetween token.kind = true := by
    unfold afterOperand at h
    split at h <;> try cases h
    split at h
    · assumption
    · cases h
  rwa [hg.isBetween, decide_eq_true_eq] at hb

theorem isBefore_of_primary {tokens : List Token} (h : Derives .primary tokens)
    (rest : List Token) (next : Token) :
    g.vocabulary.isBefore (firstOf (tokens ++ rest) next).kind = false := by
  rw [hg.isBefore, decide_eq_false_iff_not]
  cases h with
  | literal hk =>
    exact (by decide : ∀ k ∈ literalKinds, k ∉ signKinds) _ hk
  | name hk =>
    rw [List.singleton_append, firstOf_cons, hk]
    decide
  | group hk _ _ =>
    rw [List.cons_append, firstOf_cons, hk]
    decide

theorem afterOperand_of_infix {inParen : Bool} {token : Token} (h : token.kind ∈ infixKinds)
    (previous : String) : g.afterOperand inParen previous token = .ok true := by
  have hb := hg.isBetween token.kind
  rw [decide_eq_true h] at hb
  have hne : ∀ k ∈ infixKinds, k ≠ .eof ∧ k ≠ .semicolon ∧ k ≠ .closeParen ∧ k ≠ .closeCurly := by
    decide
  obtain ⟨h1, h2, h3, h4⟩ := hne _ h
  unfold afterOperand
  split <;> simp_all

end StandardPositions

namespace IsStandard

variable {g : Grammar} (hg : g.IsStandard)

include hg

theorem positions : g.StandardPositions where
  isBefore k := by rw [hg.vocabulary, Vocabulary.isBefore_standard]
  isBetween k := by rw [hg.vocabulary, Vocabulary.isBetween_standard]
  isAfter k := by rw [hg.vocabulary, Vocabulary.isAfter_standard]
  operands := hg.operands

theorem exists_literalType {k : Kind} (hk : k ∈ literalKinds) :
    ∃ type, g.vocabulary.literalType? k = some type := by
  rw [hg.vocabulary, ← Option.isSome_iff_exists, Vocabulary.literalType?_standard,
    decide_eq_true_eq]
  exact hk

theorem exists_typeNamed {token : Token} (h : Classified g.vocabulary token)
    (hk : token.kind = .typeName) : ∃ type, g.vocabulary.typeNamed? token.value = some type := by
  rw [hg.vocabulary] at h ⊢
  exact Vocabulary.typeNamed?_of_classified h hk

theorem mem_declarators {k : Kind} : k ∈ g.declarators ↔ k ∈ declaratorKinds := by
  rw [hg.declarators]
  rfl

end IsStandard

/-! ## Behind an operand -/

/-- An expression ends in front of this token: `;`, or `)` inside parentheses. -/
def Terminates (inParen : Bool) (token : Token) : Prop :=
  token.kind = if inParen then .closeParen else .semicolon

theorem afterOperand_of_terminates (g : Grammar) {inParen : Bool} {token : Token}
    (h : Terminates inParen token) (previous : String) :
    g.afterOperand inParen previous token = .ok false := by
  unfold afterOperand
  rw [show token.kind = _ from h]
  cases inParen <;> rfl

end Grammar

end ExprLang
