import ExprLang.Proofs.Nesting.Height
import ExprLang.Proofs.Tree.Recursion

/-!
# How tall the units of a program grow

The nesting limit is spent on blocks, signs and parentheses, and operators between two operands are
refused above it. A declaration adds a level on top of its initializer that is neither counted nor
refused. All of that together comes to twice the limit at most, so that whatever recurses over a
unit has a bounded stack, however long the program is.

* `Reads.height_lt`: an initializer leaves a level for its declaration.
* **`Forms.height_le`**: what a passage leaves is at most as tall as the limit and the room that is
  left, taken together.
* **`height_of_units`**: the bound for whole programs, and for the recursions over their units.
-/

namespace ExprLang

theorem Tree.height_of_check {table : TypingTable} {tree checked : Tree}
    (h : tree.check table = ⟨checked, none⟩) : checked.height = tree.height := by
  have hr := tree.rank_check table
  rw [h] at hr
  rw [height_eq_rank, height_eq_rank, hr]

namespace Grammar

variable {g : Grammar}

/-- An expression is not as tall as the limit and the room for it, taken together. -/
theorem Reads.height_lt (hg : g.StandardPositions) (hlimit : 0 < g.maxDepth) {scopes : Scopes}
    {previous : Option Token} {inParen : Bool} {room : Nat} {tokens : List Token} {next : Token}
    {tree : Tree} (h : Reads g scopes (.binding previous inParen) room tokens next tree) :
    tree.height < g.maxDepth + room := by
  have htall := h.height_le_tallest hg
  simp only [Phrase.tallest] at htall
  split at htall <;> omega

/-- **What a passage leaves is at most as tall as the limit and its room together.** A block goes a
level down with what is inside it, and a declaration is one level above its initializer. -/
theorem Forms.height_le (hg : g.StandardPositions) (hlimit : 0 < g.maxDepth) {passage : Passage}
    {room : Nat} {before behind : Scopes} {tokens : List Token} {trees : List Tree}
    (h : Forms g passage room before tokens trees behind) :
    ∀ tree ∈ trees, tree.height ≤ g.maxDepth + room := by
  induction h with
  | semicolon | nil => exact List.forall_mem_nil _
  | expression _ _ content typed =>
    rw [List.forall_mem_singleton, Tree.height_of_check typed]
    exact Nat.le_of_lt (content.height_lt hg hlimit)
  | bare =>
    rw [List.forall_mem_singleton, Tree.height_declaration]
    omega
  | initialized _ _ _ _ _ content _ typed _ =>
    have hvalue := content.height_lt hg hlimit
    have hroom := Nat.lt_of_le_of_lt (Tree.height_pos _) hvalue
    rw [List.forall_mem_singleton, Tree.height_assignment, Tree.height_declaration,
      Tree.height_of_check typed]
    omega
  | block _ _ _ ih =>
    split
    · exact List.forall_mem_nil _
    · exact List.forall_mem_singleton.mpr (Tree.height_block_le ih)
  | cons _ _ _ ih ih' => exact List.forall_mem_append.mpr ⟨ih, ih'⟩

/-- **No unit of a program is taller than twice the limit**, however long the program is. So to
render a unit, to serialize it or to check its types takes at most so many calls at once. -/
theorem height_of_units (typing : TypingTable) (maxDepth : Nat) (hlimit : 1 ≤ maxDepth)
    (source : Source) (units : List Tree)
    (h : (standard .standard typing maxDepth).parse source = .ok units) :
    ∀ unit ∈ units, unit.height ≤ 2 * maxDepth ∧
      unit.foldWithin Tree.renderNode (2 * maxDepth) = some unit.render ∧
      unit.foldWithin Tree.jsonNode (2 * maxDepth) = some unit.toJson ∧
      unit.foldWithin (Tree.checkNode typing) (2 * maxDepth) = some (unit.check typing) := by
  intro unit hunit
  obtain ⟨tokens, last, stream, scopes, -, -, -, hf⟩ := forms_of_parse h
  have htall : unit.height ≤ 2 * maxDepth := by
    rw [Nat.two_mul]
    exact hf.height_le (isStandard_standard typing maxDepth).positions hlimit unit hunit
  exact ⟨htall, Tree.recurses_render.foldWithin_of_le htall,
    Tree.recurses_toJson.foldWithin_of_le htall,
    (Tree.recurses_check typing).foldWithin_of_le htall⟩

/-- A declaration in the outermost scope is as tall as that. -/
theorem height_of_units_declaration : ∃ units,
    1 ≤ 1 ∧ (standard .standard .standard 1).parse (.ofString "var x = 1;") = .ok units ∧
    ∀ unit ∈ units, unit.height ≤ 2 * 1 ∧
      unit.foldWithin Tree.renderNode (2 * 1) = some unit.render ∧
      unit.foldWithin Tree.jsonNode (2 * 1) = some unit.toJson ∧
      unit.foldWithin (Tree.checkNode .standard) (2 * 1) = some (unit.check .standard) := by
  obtain ⟨units, h⟩ := exists_of_isOk <|
    show ((standard .standard .standard 1).parse (.ofString "var x = 1;")).isOk = true by
      decide +kernel
  exact ⟨units, Nat.le_refl 1, h, height_of_units .standard 1 (Nat.le_refl 1) _ units h⟩

end Grammar

end ExprLang
