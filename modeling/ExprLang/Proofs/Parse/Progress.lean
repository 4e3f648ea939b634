import ExprLang.Proofs.Language.Sound
import ExprLang.Proofs.Parse.Runs

/-!
# Rules make progress or touch nothing

A rule that finds nothing has taken no token and has left the scopes alone. A rule that finds
something has taken a token, and none of those that it took ends the source.

* `Idle`: where the action finds nothing it touches nothing.
* `Gains`: tokens have been taken between two states, at least one.
* `idle_…`: the rules that may find nothing, in any grammar.
* `gains_of_…`: the rules of a standard grammar that find something.
-/

namespace ExprLang.Grammar

open TokenStream

variable {α : Type} {g : Grammar} {s t u : ParseState} {room : Nat}

/-! ## Finding nothing -/

/-- Where the action finds nothing it takes no token, and leaves scopes and nesting alone. -/
def Idle (g : Grammar) (x : ParseM (Option α)) : Prop := ∀ s t, x s = .ok none t → Advance g s [] t

/-- Rules at the present depth find nothing where they find nothing with the room that is left. -/
theorem Idle.atDepth {x : Nat → ParseM (Option α)} (h : ∀ room, Idle g (x room)) :
    Idle g (g.room >>= x) := fun s t hx => h (g.maxDepth - s.depth) s t hx

theorem idle_operandOf (group : ParseM Tree) : Idle g (g.operandOf group) := by
  intro s t h
  obtain ⟨kind, u, hk, h⟩ := bind_eq_ok_iff.mp h
  obtain ⟨token, rfl, hu, -⟩ := advance_of_currentKind hk
  rcases rule : g.operands.get? token.kind with _ | _ | _ | _ <;> rw [rule] at h
  · obtain ⟨-, rfl⟩ := pure_eq_ok_iff.mp h
    exact hu
  all_goals
    obtain ⟨_, -, hsome⟩ := map_eq_ok_iff.mp h
    cases hsome

theorem idle_trailedOf (group : ParseM Tree) : Idle g (g.trailedOf group) := by
  intro s t h
  obtain ⟨r, u, ho, h⟩ := bind_eq_ok_iff.mp h
  rcases r with _ | operand
  · obtain ⟨-, rfl⟩ := pure_eq_ok_iff.mp h
    exact idle_operandOf group s u ho
  · obtain ⟨kind, w, -, h⟩ := bind_eq_ok_iff.mp h
    split at h
    · obtain ⟨_, _, -, h⟩ := bind_eq_ok_iff.mp h
      cases (pure_eq_ok_iff.mp h).1
    · cases (pure_eq_ok_iff.mp h).1

theorem idle_signedIn (room : Nat) : Idle g (g.signedIn room) := by
  intro s t h
  rcases (reads_of_nested room).1 s t none h with ⟨_, hr, -⟩ | ⟨-, ht, -⟩
  · cases hr
  · exact ht

theorem idle_bindingIn (room : Nat) (previous : Option Token) (inParen : Bool) :
    Idle g (g.bindingIn room previous inParen) := by
  intro s t h
  rcases reads_of_bindingIn h with ⟨_, hr, -⟩ | ⟨-, -, ht, -⟩
  · cases hr
  · exact ht

theorem idle_expressionIn (room : Nat) : Idle g (g.expressionIn room) := by
  intro s t h
  obtain ⟨-, ⟨_, _, _, _, hr, -⟩ | ⟨_, hr, -⟩ | ⟨-, ht, -⟩⟩ := reads_of_expressionIn h
  · cases hr
  · cases hr
  · exact ht

theorem PassageRun.advance {passage : Passage} {kept : Option Tree → Option Tree}
    (h : PassageRun g passage room s t kept none) : Advance g s [] t := by
  rcases h with ⟨_, hr, -⟩ | ⟨-, ht⟩
  · cases hr
  · exact ht

theorem idle_statementIn (room : Nat) : Idle g (g.statementIn room) :=
  fun _ _ h => (forms_of_statementIn h).advance

theorem idle_blockIn (room : Nat) : Idle g (g.blockIn room) :=
  fun _ _ h => (forms_of_blockIn h).advance

theorem idle_typeClause : Idle g g.typeClause := by
  intro s t h
  obtain ⟨clause, ht, hclause⟩ := clause_of_typeClause h
  cases hclause
  exact ht

/-! ## Finding something -/

/-- Between the two states tokens have been taken, at least one, and none that ends the source. -/
def Gains (g : Grammar) (s t : ParseState) : Prop :=
  ∃ tokens, tokens ≠ [] ∧ Takes g.vocabulary s.tokens tokens t.tokens ∧
    ∀ token ∈ tokens, token.kind ≠ .eof

namespace Gains

theorem of_looks (h : Takes g.vocabulary s.tokens [] t.tokens) (h' : Gains g t u) :
    Gains g s u := by
  obtain ⟨tokens, hne, ht, heof⟩ := h'
  exact ⟨tokens, hne, h.trans ht, heof⟩

theorem looks (h : Gains g s t) (h' : Takes g.vocabulary t.tokens [] u.tokens) : Gains g s u := by
  obtain ⟨tokens, hne, ht, heof⟩ := h
  have hu := ht.trans h'
  rw [List.append_nil] at hu
  exact ⟨tokens, hne, hu, heof⟩

theorem trans (h : Gains g s t) (h' : Gains g t u) : Gains g s u := by
  obtain ⟨xs, hne, ht, heof⟩ := h
  obtain ⟨ys, -, hu, heof'⟩ := h'
  exact ⟨xs ++ ys, List.append_ne_nil_of_left_ne_nil hne _, ht.trans hu,
    List.forall_mem_append.mpr ⟨heof, heof'⟩⟩

end Gains

/-- The phrase is not merely what extends an expression. -/
def Phrase.Whole : Phrase → Prop
  | .extension .. => False
  | _ => True

/-- The action takes a token whenever it finds something. -/
def Gainful (g : Grammar) (x : ParseM (Option α)) : Prop :=
  ∀ s a t, x s = .ok (some a) t → Gains g s t

theorem Gainful.atDepth {x : Nat → ParseM (Option α)} (h : ∀ room, Gainful g (x room)) :
    Gainful g (g.room >>= x) := fun s a t hx => h (g.maxDepth - s.depth) s a t hx

theorem PhraseDerives.ne_nil {phrase : Phrase} {tokens : List Token}
    (h : PhraseDerives phrase tokens) (hp : phrase.Whole) : tokens ≠ [] := by
  have hhead : ∀ {part}, Derives part tokens →
      (part = .primary ∨ part = .operand ∨ part = .expression) → tokens ≠ [] := by
    intro part hd hpart
    obtain ⟨_, _, rfl, -⟩ := hd.head hpart
    exact List.cons_ne_nil _ _
  cases phrase with
  | operand => exact hhead h (.inl rfl)
  | signed => exact hhead h (.inr (.inl rfl))
  | binding => exact hhead h (.inr (.inr rfl))
  | extension => exact hp.elim

/-- Whoever reads an operand or an expression gains. -/
theorem gains_of_reads (hg : g.StandardPositions) {phrase : Phrase} {tree : Tree}
    (h : ReadsRun g phrase room s t tree) (hp : phrase.Whole) : Gains g s t := by
  obtain ⟨tokens, ht, hreads⟩ := h
  obtain ⟨next, hn⟩ := exists_nextIs t
  have hd := (hreads next hn).derives hg
  exact ⟨tokens, hd.ne_nil hp, ht.takes, hd.ne_eof⟩

theorem reads_of_group (room : Nat) (s t : ParseState) (token : Token) (tree : Tree)
    (ha : s.tokens.ahead = some token) (rule : g.operands.get? token.kind = some .grouping)
    (h : g.groupOf (g.groupContentIn room) s = .ok tree t) :
    ReadsRun g .operand room s t tree := by
  cases room with
  | zero =>
    obtain ⟨_, _, -, h⟩ := bind_eq_ok_iff.mp h
    obtain ⟨_, _, hcontent, -⟩ := bind_eq_ok_iff.mp h
    exact absurd hcontent exceedDepth_ne_ok
  | succ room => exact reads_of_groupOf (fun _ _ _ hb => (reads_of_bindingIn hb).reads) ha rule h

theorem gains_of_operandOf (hg : g.StandardPositions) {tree : Tree}
    (h : g.operandOf (g.groupOf (g.groupContentIn room)) s = .ok (some tree) t) : Gains g s t := by
  rcases reads_of_operandOf (reads_of_group room) h with ⟨_, -, hr⟩ | ⟨hr, -⟩
  · exact gains_of_reads hg hr trivial
  · cases hr

theorem gains_of_trailedOf (hg : g.StandardPositions) {tree : Tree}
    (h : g.trailedOf (g.groupOf (g.groupContentIn room)) s = .ok (some tree) t) : Gains g s t := by
  obtain ⟨r, u, ho, h⟩ := bind_eq_ok_iff.mp h
  rcases r with _ | operand
  · cases (pure_eq_ok_iff.mp h).1
  · obtain ⟨kind, w, hk, h⟩ := bind_eq_ok_iff.mp h
    obtain ⟨token, rfl, hw, -⟩ := advance_of_currentKind hk
    rw [if_neg (by rw [hg.isAfter]; exact Bool.false_ne_true)] at h
    obtain ⟨-, rfl⟩ := pure_eq_ok_iff.mp h
    exact (gains_of_operandOf hg ho).looks hw.takes

theorem gains_of_signedIn (hg : g.StandardPositions) {tree : Tree}
    (h : g.signedIn room s = .ok (some tree) t) : Gains g s t := by
  rcases (reads_of_nested room).1 s t _ h with ⟨_, -, hr⟩ | ⟨hr, -⟩
  · exact gains_of_reads hg hr trivial
  · cases hr

theorem gains_of_bindingIn (hg : g.StandardPositions) {previous : Option Token} {inParen : Bool}
    {tree : Tree} (h : g.bindingIn room previous inParen s = .ok (some tree) t) : Gains g s t :=
  gains_of_reads hg (reads_of_bindingIn h).reads trivial

theorem gains_of_expressionIn (hg : g.StandardPositions) {tree : Tree}
    (h : g.expressionIn room s = .ok (some tree) t) : Gains g s t := by
  have heof : ∀ {token : Token}, token.kind = .semicolon → ∀ x ∈ [token], x.kind ≠ .eof := by
    intro token hk
    rw [List.forall_mem_singleton, hk]
    decide
  obtain ⟨-, ⟨tokens, token, _, _, -, hk, ht, hreads, -⟩ | ⟨token, -, hk, ht⟩ | ⟨hr, -⟩⟩ :=
    reads_of_expressionIn h
  · exact ⟨_, List.append_ne_nil_of_right_ne_nil _ (List.cons_ne_nil _ _), ht.takes,
      List.forall_mem_append.mpr ⟨(hreads.derives hg).ne_eof, heof hk⟩⟩
  · exact ⟨[token], List.cons_ne_nil _ _, ht.takes, heof hk⟩
  · cases hr

theorem gains_of_forms (hg : g.IsStandard) {passage : Passage} (single : passage ≠ .several)
    {trees : List Tree} (h : FormsRun g passage room s t trees) : Gains g s t := by
  obtain ⟨tokens, ht, -, hf⟩ := h
  have hd := hf.derives hg
  rw [if_neg single] at hd
  obtain ⟨_, _, rfl, -⟩ := hd.unit_head
  exact ⟨_, List.cons_ne_nil _ _, ht, hd.ne_eof⟩

theorem PassageRun.gains (hg : g.IsStandard) {passage : Passage} (single : passage ≠ .several)
    {kept : Option Tree → Option Tree} {tree : Tree}
    (h : PassageRun g passage room s t kept (some tree)) : Gains g s t := by
  rcases h with ⟨_, -, hf⟩ | ⟨hr, -⟩
  · exact gains_of_forms hg single hf
  · cases hr

theorem gains_of_statementIn (hg : g.IsStandard) {tree : Tree}
    (h : g.statementIn room s = .ok (some tree) t) : Gains g s t :=
  (forms_of_statementIn h).gains hg (by decide)

theorem gains_of_blockIn (hg : g.IsStandard) {tree : Tree}
    (h : g.blockIn room s = .ok (some tree) t) : Gains g s t :=
  (forms_of_blockIn h).gains hg (by decide)

theorem gains_of_typeClause {type : DataType} (h : g.typeClause s = .ok (some type) t) :
    Gains g s t := by
  obtain ⟨clause, ht, hclause⟩ := clause_of_typeClause h
  have hd := hclause.derives
  cases hclause
  exact ⟨_, List.cons_ne_nil _ _, ht.takes, hd.ne_eof⟩

theorem gains_of_unitIn (hg : g.IsStandard) {r : Option Tree} (h : g.unitIn room s = .ok r t) :
    Gains g s t := by
  obtain ⟨statement, u, hs, h⟩ := bind_eq_ok_iff.mp h
  rcases statement with _ | statement
  · obtain ⟨block, w, hb, h⟩ := bind_eq_ok_iff.mp h
    rcases block with _ | block
    · obtain ⟨_, _, -, h⟩ := bind_eq_ok_iff.mp h
      exact absurd h throw_ne_ok
    · obtain ⟨-, rfl⟩ := pure_eq_ok_iff.mp h
      exact (gains_of_blockIn hg hb).of_looks (idle_statementIn room s u hs).takes
  · obtain ⟨-, rfl⟩ := pure_eq_ok_iff.mp h
    exact gains_of_statementIn hg hs

end ExprLang.Grammar
