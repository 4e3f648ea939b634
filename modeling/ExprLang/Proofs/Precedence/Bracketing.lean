import ExprLang.Proofs.Lexing.Partition
import ExprLang.Proofs.Precedence.Climb
import ExprLang.Proofs.Precedence.Complete

/-!
# The tree of operators and operands

Whatever the operators between operands bind like, an expression is read as its operands in order,
bracketed in the only way that the operators allow.

* `Reranked`: the standard vocabulary with other precedences and associativities.
* `Brackets`: the one tree of some operands and operators that is bracketed as it should be.
* **`binding_brackets`**: if the rule for operands joined by operators gives a tree, it is that one;
  if nothing assigns and every operand is read alone, only the nesting limit keeps it from giving
  one.
-/

namespace ExprLang

/-! ## Other precedences -/

namespace Vocabulary

/-- What an entry says of an operator. -/
def operatorOf? : Reserved → Option Operator
  | .operator op => some op
  | _ => none

/-- The standard vocabulary, where operators that stand between operands may have been registered
again, to bind otherwise. -/
inductive Reranked : Vocabulary → Prop
  | standard : Reranked Vocabulary.standard
  | again {v : Vocabulary} {lexeme : String} {op : Operator} (before : Reranked v)
      (entry : Vocabulary.standard.lookup lexeme = some (.operator op))
      (between : .betweenOperands ∈ op.positions) (precedence : Nat)
      (associativity : Associativity) :
      Reranked (v.register (.operator lexeme { op with precedence, associativity }))

theorem operator?_of_lookup_standard {lexeme : String} {op : Operator}
    (h : standard.lookup lexeme = some (.operator op)) : standard.operator? op.kind = some op := by
  have hall : ∀ e ∈ standard.lexemes.entries, ∀ op ∈ operatorOf? e.2,
      standard.operator? op.kind = some op := by decide
  exact hall _ (Table.mem_of_get? h) op rfl

theorem Reranked.standsAt_eq {v : Vocabulary} (h : Reranked v) (position : Position) (kind : Kind) :
    v.standsAt position kind = Vocabulary.standard.standsAt position kind := by
  induction h with
  | standard => rfl
  | @again v lexeme op _ entry _ precedence associativity ih =>
    have hget : (v.register (.operator lexeme { op with precedence, associativity })).operator?
        kind = if op.kind = kind then some { op with precedence, associativity }
          else v.operator? kind := Table.get?_insert _ _ _ _
    by_cases hk : op.kind = kind
    · subst hk
      unfold Vocabulary.standsAt
      rw [hget, if_pos rfl, operator?_of_lookup_standard entry]
      rfl
    · unfold Vocabulary.standsAt at ih ⊢
      rw [hget, if_neg hk, ih]

end Vocabulary

namespace Grammar

open Vocabulary (Reranked)

theorem positions_of_reranked {v : Vocabulary} (h : Reranked v) (typing : TypingTable)
    (maxDepth : Nat) : (standard v typing maxDepth).StandardPositions where
  isBefore k := (h.standsAt_eq _ k).trans (Vocabulary.isBefore_standard k)
  isBetween k := (h.standsAt_eq _ k).trans (Vocabulary.isBetween_standard k)
  isAfter k := (h.standsAt_eq _ k).trans (Vocabulary.isAfter_standard k)
  operands := rfl

variable {g : Grammar} {last : Token} {scopes : Scopes}

/-! ## Operands in order -/

/-- The trees stand for the operands, each behind the same operator. -/
def Operands (gives : List Token → Tree → Prop) :
    List (Token × List Token) → List (Token × Tree) → Prop :=
  List.Forall₂ fun e e' => e.1 = e'.1 ∧ gives e.2 e'.2

theorem Operands.exists_tree {gives : List Token → Tree → Prop}
    {others : List (Token × List Token)} {trees : List (Token × Tree)}
    (h : Operands gives others trees) : ∀ e ∈ others, ∃ tree, gives e.2 tree := by
  induction h with
  | nil => exact List.forall_mem_nil _
  | cons same _ ih => exact List.forall_mem_cons.mpr ⟨⟨_, same.2⟩, ih⟩

theorem Chained.operands (hg : g.StandardPositions) {tokens first : List Token} {x : Tree}
    {others : List (Token × List Token)} {trees : List (Token × Tree)}
    (h : Chained g scopes tokens x trees) (hfirst : Derives .operand first)
    (hothers : IsChain others) (heq : tokens = first ++ chain others) :
    ReadsOperand g scopes first x ∧ Operands (ReadsOperand g scopes) others trees := by
  induction h generalizing first others with
  | @single xs x operand =>
    have hd : Derives .operand xs := (operand default).derives hg
    rw [← List.append_nil xs] at heq
    obtain rfl := hd.eq_of_append_eq hfirst trivial trivial heq
    cases others with
    | nil => exact ⟨operand, .nil⟩
    | cons => cases List.append_cancel_left heq
  | @join operator xs ys x y trees operand kind _ ih =>
    have hd : Derives .operand xs := (operand default).derives hg
    obtain rfl := hd.eq_of_append_eq hfirst trivial trivial heq
    cases others with
    | nil => cases List.append_cancel_left heq
    | cons e others =>
      obtain ⟨⟨-, hnext⟩, hothers⟩ := List.forall_mem_cons.mp hothers
      obtain ⟨hop, htail⟩ := List.cons.inj (List.append_cancel_left heq)
      obtain ⟨hy, hrest⟩ := ih hnext hothers htail
      exact ⟨operand, .cons ⟨hop.symm, hy⟩ hrest⟩

/-- The rule for signed operands gives the tree for the tokens, and no other. -/
def OnlyGives (g : Grammar) (scopes : Scopes) (tokens : List Token) (tree : Tree) : Prop :=
  ∀ other, GivesOperand g scopes tokens other ↔ other = tree

/-- The rule gives what is read of operands that stand in some source. -/
theorem Operands.onlyGives (hg : g.StandardPositions) {others : List (Token × List Token)}
    {trees : List (Token × Tree)} {tail : List Token} {s : ParseState}
    (h : Operands (ReadsOperand g s.scopes) others trees)
    (hs : Before g last (chain others ++ tail) s) :
    Operands (OnlyGives g s.scopes) others trees := by
  generalize hscopes : s.scopes = scopes at h ⊢
  induction h generalizing s with
  | nil => exact .nil
  | @cons e e' others trees hread _ ih =>
    obtain ⟨operator, operand⟩ := e
    have hs : Before g last ([operator] ++ (operand ++ (chain others ++ tail))) s := by
      rw [← List.append_assoc operand]
      exact hs
    obtain ⟨t, ht, hts⟩ := hs.exists_behind
    obtain ⟨u, hu, hus⟩ := ht.exists_behind
    have htscopes := hts.trans hscopes
    refine .cons ⟨hread.1, ?_⟩ (ih hu (hus.trans htscopes))
    rw [← htscopes]
    exact givesOperand_iff hg (htscopes ▸ hread.2) ht

/-! ## Whole expressions -/

/-- The skeleton shows the tree to be the operands with the operators between them, bracketed as it
should be; there is no other way to bracket these. -/
structure Brackets (g : Grammar) (scopes : Scopes) (first : List Token)
    (others : List (Token × List Token)) (tree : Tree) (k : Skeleton) : Prop where
  tree : k.tree = tree
  first : OnlyGives g scopes first k.first
  others : Operands (OnlyGives g scopes) others k.others
  bracketed : k.Bracketed g.vocabulary
  unique : ∀ k' : Skeleton, k'.first = k.first → k'.others = k.others →
    k'.Bracketed g.vocabulary → k' = k

theorem closes_of_ends {rest : List Token} (h : g.Ends false (firstOf rest last)) :
    Closes .expression rest := by
  intro token htoken
  have hk : (firstOf rest last).kind = .semicolon := h.terminates
  obtain ⟨ys, rfl⟩ := List.head?_eq_some_iff.mp htoken
  rw [firstOf_cons] at hk
  rw [hk]
  decide

theorem brackets_of_binding (hg : g.StandardPositions) {first rest : List Token}
    {others : List (Token × List Token)} {semicolon : Token} {s t : ParseState} {tree : Tree}
    (hs : Before g last (first ++ (chain others ++ semicolon :: rest)) s)
    (hk : semicolon.kind = .semicolon) (hfirst : Derives .operand first) (hothers : IsChain others)
    (h : g.binding none false s = .ok (some tree) t) :
    ∃ k, Brackets g s.scopes first others tree k := by
  have hr : g.bindingIn (g.maxDepth - s.depth) none false s = .ok (some tree) t := h
  obtain ⟨tokens, hst, hreads⟩ := (reads_of_bindingIn hr).reads
  obtain ⟨next, hnext⟩ := exists_nextIs t
  have hd : Derives .expression tokens := (hreads next hnext).derives hg
  obtain ⟨left, heq, ht⟩ := hs.of_advance hst hd.ne_eof
  obtain ⟨k, houtlines, -, hend⟩ := (hreads _ ht.nextIs).shaped hg (Nat.sub_le _ _)
  -- no operator waits for what was read, so that the expression ends behind it
  have hends : g.Ends false (firstOf left last) := hend.resolve_right fun hy => by cases hy.1
  have hsemicolon : Closes .expression (semicolon :: rest) :=
    closes_of_not_mem (by rw [hk]; decide) rest
  rw [← List.append_assoc] at heq
  have htokens := (hothers.derives hfirst).eq_of_append_eq hd hsemicolon (closes_of_ends hends) heq
  obtain ⟨hx, hrest⟩ := houtlines.chained.operands hg hfirst hothers htokens.symm
  obtain ⟨u, hu, hus⟩ := hs.exists_behind
  refine ⟨k, houtlines.tree, givesOperand_iff hg hx hs, ?_, houtlines.bracketed, ?_⟩
  · rw [← hus] at hrest ⊢
    exact hrest.onlyGives hg hu
  · intro k' hfirst' hothers' hk'
    exact Skeleton.eq_of_bracketed hk' houtlines.bracketed hfirst' hothers'

/-- **Expressions are bracketed as their operators bind**, however a vocabulary ranks the operators.
If nothing assigns, only the nesting limit can stop the rule from giving such a tree. -/
theorem binding_brackets {v : Vocabulary} (hv : Reranked v) (typing : TypingTable) (maxDepth : Nat)
    {last semicolon : Token} {first rest : List Token} {others : List (Token × List Token)}
    {s : ParseState}
    (hs : Before (standard v typing maxDepth) last (first ++ (chain others ++ semicolon :: rest)) s)
    (hk : semicolon.kind = .semicolon) (hfirst : Derives .operand first)
    (hothers : ∀ e ∈ others, v.isBetween e.1.kind = true ∧ Derives .operand e.2) :
    (∀ tree t, (standard v typing maxDepth).binding none false s = .ok (some tree) t →
      ∃ k, Brackets (standard v typing maxDepth) s.scopes first others tree k) ∧
    ((∀ e ∈ others, e.1.kind ≠ .assignment) →
      (∃ tree, GivesOperand (standard v typing maxDepth) s.scopes first tree) →
      (∀ e ∈ others, ∃ tree, GivesOperand (standard v typing maxDepth) s.scopes e.2 tree) →
      ((∃ tree t, (standard v typing maxDepth).binding none false s = .ok (some tree) t) ∨
        ∃ line t, (standard v typing maxDepth).binding none false s =
          .error (.refused ⟨.nestingTooDeep maxDepth, line⟩) t) ∧
      ∃ enough, ∀ limit, enough ≤ limit → ∃ tree t,
        (standard v typing limit).binding none false s = .ok (some tree) t) := by
  have hg := positions_of_reranked hv typing maxDepth
  have hchain : IsChain others := by
    intro e he
    obtain ⟨hb, hd⟩ := hothers e he
    exact ⟨of_decide_eq_true ((hg.isBetween _).symm.trans hb), hd⟩
  refine ⟨fun tree t h => brackets_of_binding hg hs hk hfirst hchain h, ?_⟩
  rintro hassign ⟨tree, hgives⟩ hall
  have hread : ∀ e ∈ others, e.1.kind ∈ infixKinds ∧ e.1.kind ≠ .assignment ∧
      ∃ tree, ReadsOperand (standard v typing maxDepth) s.scopes e.2 tree := by
    intro e he
    obtain ⟨x, hx⟩ := hall e he
    exact ⟨(hchain e he).1, hassign e he, x, hx.reads hg⟩
  obtain ⟨enough, hle, hok⟩ := binding_of_joinable hg hs hk (hgives.reads hg) hread
  obtain ⟨_, _, hb⟩ := hok enough (Nat.le_refl _)
  exact ⟨binding_of_limit_le hle hb, enough, hok⟩

/-- Whether a run gives a tree. -/
def givesTree : EStateM.Result Failure ParseState (Option Tree) → Bool
  | .ok (some _) _ => true
  | _ => false

theorem exists_of_givesTree {r : EStateM.Result Failure ParseState (Option Tree)}
    (h : givesTree r = true) : ∃ tree t, r = .ok (some tree) t := by
  rcases r with ⟨_ | tree, t⟩ | _
  · cases h
  · exact ⟨tree, t, rfl⟩
  · cases h

/-- The standard vocabulary, but `-` ties with `*` and associates to the right. -/
def tied : Vocabulary :=
  Vocabulary.standard.register
    (.operator "-" ⟨.dash, 20, .rightToLeft, [.beforeOperand, .betweenOperands]⟩)

/-- What `- 2 * -3 - 4` joins to an operand. -/
def tiedOthers : List (Token × List Token) :=
  [(⟨.dash, "-", 1⟩, [⟨.intLiteral, "2", 1⟩]),
    (⟨.star, "*", 1⟩, [⟨.dash, "-", 1⟩, ⟨.intLiteral, "3", 1⟩]),
    (⟨.dash, "-", 1⟩, [⟨.intLiteral, "4", 1⟩])]

theorem binding_brackets_tied : Reranked tied ∧ ∃ last tree t,
    Before (standard tied .standard 16) last
      ([⟨.intLiteral, "1", 1⟩] ++ (chain tiedOthers ++ [⟨.semicolon, ";", 1⟩]))
      (.ofSource (.ofString "1 - 2 * -3 - 4;")) ∧
    Derives .operand [⟨.intLiteral, "1", 1⟩] ∧
    (∀ e ∈ tiedOthers, tied.isBetween e.1.kind = true ∧ Derives .operand e.2) ∧
    (standard tied .standard 16).binding none false (.ofSource (.ofString "1 - 2 * -3 - 4;")) =
      .ok (some tree) t ∧
    (∃ k, Brackets (standard tied .standard 16) .root [⟨.intLiteral, "1", 1⟩] tiedOthers tree k) ∧
    (∀ e ∈ tiedOthers, e.1.kind ≠ .assignment) ∧
    (∃ x, GivesOperand (standard tied .standard 16) .root [⟨.intLiteral, "1", 1⟩] x) ∧
    ∀ e ∈ tiedOthers, ∃ x, GivesOperand (standard tied .standard 16) .root e.2 x := by
  have hv : Reranked tied :=
    .again .standard (show Vocabulary.standard.lookup "-" = some (.operator
      ⟨.dash, 10, .leftToRight, [.beforeOperand, .betweenOperands]⟩) by decide) (by decide) 20
      .rightToLeft
  obtain ⟨last, hu⟩ := upcoming_of_tokensOf <|
    show tokensOf tied "1 - 2 * -3 - 4;" = some
      ([⟨.intLiteral, "1", 1⟩] ++ (chain tiedOthers ++ [⟨.semicolon, ";", 1⟩])) by decide +kernel
  have hs : Before (standard tied .standard 16) last
    ([⟨.intLiteral, "1", 1⟩] ++ (chain tiedOthers ++ [⟨.semicolon, ";", 1⟩]))
    (.ofSource (.ofString "1 - 2 * -3 - 4;")) := hu
  have hliteral : ∀ value line, Derives .operand [⟨.intLiteral, value, line⟩] :=
    fun _ _ =>
    .plain (.literal (show Kind.intLiteral ∈ literalKinds by decide))
  have hothers : ∀ e ∈ tiedOthers, tied.isBetween e.1.kind = true ∧ Derives .operand e.2 := by
    unfold tiedOthers
    simp only [List.forall_mem_cons]
    exact ⟨⟨by decide, hliteral _ _⟩, ⟨by decide, .sign (by decide) (hliteral _ _)⟩,
      ⟨by decide, hliteral _ _⟩, List.forall_mem_nil _⟩
  obtain ⟨tree, t, h⟩ := exists_of_givesTree <|
    show givesTree ((standard tied .standard 16).binding none false
      (.ofSource (.ofString "1 - 2 * -3 - 4;"))) = true by decide +kernel
  obtain ⟨k, hk⟩ := (binding_brackets hv .standard 16 hs rfl (hliteral _ _) hothers).1 tree t h
  refine ⟨hv, last, tree, t, hs, hliteral _ _, hothers, h, ⟨k, hk⟩, by decide,
    ⟨k.first, (hk.first _).mpr rfl⟩, fun e he => ?_⟩
  obtain ⟨x, hx⟩ := hk.others.exists_tree e he
  exact ⟨x, (hx x).mpr rfl⟩

end Grammar

end ExprLang
