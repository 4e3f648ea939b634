import ExprLang.Proofs.Language.Sound
import ExprLang.Proofs.Parse.Delivers

/-!
# Operands with their signs

The rule for signed operands gives the same tree for the same tokens wherever they stand, if there
is room for it.

* `ReadsOperand`: the tree that tokens are read as; `GivesOperand`: what the rule gives for them.
* **`givesOperand_iff`**: the rule gives no other tree than that.
-/

namespace ExprLang.Grammar

variable {g : Grammar} {last : Token} {scopes : Scopes}

/-! ## What does not matter -/

theorem Reads.mono {phrase : Phrase} {room room' limit : Nat} {tokens : List Token} {next : Token}
    {tree : Tree} (h : Reads g scopes phrase room tokens next tree) (hle : room ≤ room')
    (hlimit : g.maxDepth ≤ limit) :
    Reads { g with maxDepth := limit } scopes phrase room' tokens next tree := by
  induction h generalizing room' with
  | literal rule known => exact .literal rule known
  | symbol rule known => exact .symbol rule known
  | group rule _ close ih =>
    obtain ⟨n, rfl⟩ := Nat.exists_eq_add_one_of_ne_zero (Nat.ne_zero_of_lt hle)
    exact .group rule (ih (Nat.le_of_succ_le_succ hle)) close
  | sign before _ ih =>
    obtain ⟨n, rfl⟩ := Nat.exists_eq_add_one_of_ne_zero (Nat.ne_zero_of_lt hle)
    exact .sign before (ih (Nat.le_of_succ_le_succ hle))
  | plain unsigned _ final ih => exact .plain unsigned (ih hle) final
  | trailed unsigned _ after ih => exact .trailed unsigned (ih hle) after
  | binding _ _ ihf iho =>
    obtain ⟨n, rfl⟩ := Nat.exists_eq_add_one_of_ne_zero (Nat.ne_zero_of_lt hle)
    have hle := Nat.le_of_succ_le_succ hle
    exact .binding (ihf hle) (iho hle)
  | ends stop => exact .ends stop
  | yields infix_ target looser => exact .yields infix_ target looser
  | extend infix_ target tighter _ low _ ihr iho =>
    exact .extend infix_ target tighter (ihr hle) (Nat.le_trans low hlimit) (iho hle)

theorem Reads.mono_room {phrase : Phrase} {room room' : Nat} {tokens : List Token} {next : Token}
    {tree : Tree} (h : Reads g scopes phrase room tokens next tree) (hle : room ≤ room') :
    Reads g scopes phrase room' tokens next tree := h.mono hle (Nat.le_refl _)

theorem Reads.operand_next {room : Nat} {tokens : List Token} {next : Token} {tree : Tree}
    (h : Reads g scopes .operand room tokens next tree) (other : Token) :
    Reads g scopes .operand room tokens other tree := by
  cases h with
  | literal rule known => exact .literal rule known
  | symbol rule known => exact .symbol rule known
  | group rule content close => exact .group rule content close

/-- No operator stands after its operand, so that it does not matter what comes next. -/
theorem Reads.signed_next (hg : g.StandardPositions) {room : Nat} {tokens : List Token}
    {next : Token} {tree : Tree} (h : Reads g scopes .signed room tokens next tree)
    (other : Token) : Reads g scopes .signed room tokens other tree := by
  generalize hp : Phrase.signed = phrase at h
  induction h with
  | sign before _ ih => exact .sign before (ih hp)
  | plain _ operand _ =>
    have hprimary : Derives .primary _ := operand.derives hg
    have hunsigned := hg.isBefore_of_primary hprimary [] other
    rw [List.append_nil] at hunsigned
    exact .plain hunsigned (operand.operand_next other) (hg.isAfter _)
  | trailed _ _ after =>
    rw [hg.isAfter] at after
    cases after
  | _ => cases hp

/-! ## Operands -/

/-- With all the room there is, the tokens are read as the tree, whatever comes behind them. -/
def ReadsOperand (g : Grammar) (scopes : Scopes) (tokens : List Token) (tree : Tree) : Prop :=
  ∀ next, Reads g scopes .signed g.maxDepth tokens next tree

/-- The rule for signed operands gives the tree for the tokens: it takes them from some source and
leaves what is behind. -/
def GivesOperand (g : Grammar) (scopes : Scopes) (tokens : List Token) (tree : Tree) : Prop :=
  ∃ last rest s t, Before g last (tokens ++ rest) s ∧ s.scopes = scopes ∧
    g.signed s = .ok (some tree) t ∧ Before g last rest t

theorem Reads.readsOperand (hg : g.StandardPositions) {room : Nat} {tokens : List Token}
    {next : Token} {tree : Tree} (h : Reads g scopes .signed room tokens next tree)
    (hle : room ≤ g.maxDepth) : ReadsOperand g scopes tokens tree :=
  fun other => (h.mono_room hle).signed_next hg other

theorem GivesOperand.reads (hg : g.StandardPositions) {tokens : List Token} {tree : Tree}
    (h : GivesOperand g scopes tokens tree) : ReadsOperand g scopes tokens tree := by
  obtain ⟨last, rest, s, t, hs, rfl, h, ht⟩ := h
  have hr : g.signedIn (g.maxDepth - s.depth) s = .ok (some tree) t := h
  rcases (reads_of_nested _).1 _ _ _ hr with ⟨_, hsome, found, hst, hreads⟩ | ⟨hnone, -⟩
  · cases hsome
    have hread := hreads _ ht.nextIs
    have hd : Derives .operand found := hread.derives hg
    obtain ⟨rest', heq, ht'⟩ := hs.of_advance hst hd.ne_eof
    cases ht.symm.trans ht'
    rw [List.append_cancel_right heq]
    exact hread.readsOperand hg (Nat.sub_le _ _)
  · cases hnone

theorem ReadsOperand.delivers {tokens : List Token} {tree : Tree}
    (h : ReadsOperand g scopes tokens tree) (rest : List Token) :
    Delivers g last (g.signedIn g.maxDepth) ⟨tokens ++ rest, scopes⟩ (some tree) ⟨rest, scopes⟩ :=
  (h _).delivers rest rfl

/-- **The rule gives the tree that the tokens are read as, and no other**, if they stand in some
source. -/
theorem givesOperand_iff (hg : g.StandardPositions) {tokens rest : List Token} {tree : Tree}
    {s : ParseState} (h : ReadsOperand g s.scopes tokens tree)
    (hs : Before g last (tokens ++ rest) s) (other : Tree) :
    GivesOperand g s.scopes tokens other ↔ other = tree := by
  have hs₀ : Before g last (tokens ++ rest) (s.atDepth 0) := hs
  obtain ⟨t, ht, hb, -⟩ := h.delivers rest _ hs₀ rfl
  constructor
  · intro hgives
    obtain ⟨t', ht', -⟩ := (hgives.reads hg).delivers rest _ hs₀ rfl
    rw [ht] at ht'
    cases ht'
    rfl
  · rintro rfl
    exact ⟨last, rest, _, t, hs₀, rfl, ht, hb⟩

end ExprLang.Grammar
