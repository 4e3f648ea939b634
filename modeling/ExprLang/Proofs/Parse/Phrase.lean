import ExprLang.Grammar.Expression
import ExprLang.Proofs.Parse.Advance
import ExprLang.Proofs.Tree.Height

/-!
# Phrases of expressions

Which tokens the rules for expressions read, and as which trees, without a state that is passed
along.

* `Phrase`: operands, operands with signs, operands joined by operators, and the extensions of an
  expression already read.
* `Reads`: the tokens of a phrase, the token behind them, and the tree they are read as.
* **`reads_of_bindingIn`**: a successful run of the rule reads a phrase.
-/

namespace ExprLang.Grammar

variable (g : Grammar)

/-- The parts of an expression. -/
inductive Phrase where
  /-- A literal, a name, or an expression in parentheses. -/
  | operand
  /-- An operand with its signs. -/
  | signed
  /-- Operands joined by operators, to the right of `previous`. -/
  | binding (previous : Option Token) (inParen : Bool)
  /-- What extends the expression `left`. -/
  | extension (previous : Option Token) (inParen : Bool) (left : Tree)

/-- The expression goes on with this token, which is an operator. -/
def Continues (inParen : Bool) (token : Token) : Prop :=
  ∃ previous, g.afterOperand inParen previous token = .ok true

/-- The expression ends in front of this token. -/
def Ends (inParen : Bool) (token : Token) : Prop :=
  ∃ previous, g.afterOperand inParen previous token = .ok false

/-- A tree that may stand to the left of an operator: any, but for `=` an assignable variable. -/
def FitsTarget (scopes : Scopes) (operator : Token) (target : Tree) : Prop :=
  operator.kind = .assignment → ∃ token type assignable symbol,
    target = .reference token type assignable ∧ scopes.lookup token.value = some symbol ∧
      symbol.assignable = true

/-- `Reads g scopes phrase room tokens next tree`: with room for so many levels, `tokens` in front
of `next` are a phrase and stand for `tree`. -/
inductive Reads (scopes : Scopes) : Phrase → Nat → List Token → Token → Tree → Prop
  | literal {room : Nat} {token next : Token} {type : DataType}
      (rule : g.operands.get? token.kind = some .literal)
      (known : g.vocabulary.literalType? token.kind = some type) :
      Reads scopes .operand room [token] next (.literal token type)
  | symbol {room : Nat} {token next : Token} {symbol : Symbol}
      (rule : g.operands.get? token.kind = some .symbol)
      (known : scopes.lookup token.value = some symbol) :
      Reads scopes .operand room [token] next (.reference token symbol.type symbol.assignable)
  | group {room : Nat} {opening closing next : Token} {tokens : List Token} {tree : Tree}
      (rule : g.operands.get? opening.kind = some .grouping)
      (content : Reads scopes (.binding none true) room tokens closing tree)
      (close : closing.kind = .closeParen) :
      Reads scopes .operand (room + 1) (opening :: (tokens ++ [closing])) next tree
  | sign {room : Nat} {operator next : Token} {tokens : List Token} {tree : Tree}
      (before : g.vocabulary.isBefore operator.kind = true)
      (operand : Reads scopes .signed room tokens next tree) :
      Reads scopes .signed (room + 1) (operator :: tokens) next (.unary operator none tree)
  | plain {room : Nat} {next : Token} {tokens : List Token} {tree : Tree}
      (unsigned : g.vocabulary.isBefore (firstOf tokens next).kind = false)
      (operand : Reads scopes .operand room tokens next tree)
      (last : g.vocabulary.isAfter next.kind = false) :
      Reads scopes .signed room tokens next tree
  | trailed {room : Nat} {operator next : Token} {tokens : List Token} {tree : Tree}
      (unsigned : g.vocabulary.isBefore (firstOf tokens operator).kind = false)
      (operand : Reads scopes .operand room tokens operator tree)
      (after : g.vocabulary.isAfter operator.kind = true) :
      Reads scopes .signed room (tokens ++ [operator]) next (.unary operator none tree)
  | binding {room : Nat} {previous : Option Token} {inParen : Bool} {next : Token}
      {xs ys : List Token} {left tree : Tree}
      (first : Reads scopes .signed room xs (firstOf ys next) left)
      (others : Reads scopes (.extension previous inParen left) room ys next tree) :
      Reads scopes (.binding previous inParen) (room + 1) (xs ++ ys) next tree
  | ends {room : Nat} {previous : Option Token} {inParen : Bool} {next : Token} {left : Tree}
      (stop : g.Ends inParen next) :
      Reads scopes (.extension previous inParen left) room [] next left
  | yields {room : Nat} {previous : Option Token} {inParen : Bool} {next : Token} {left : Tree}
      (infix_ : g.Continues inParen next) (target : FitsTarget scopes next left)
      (looser : g.yields previous next = true) :
      Reads scopes (.extension previous inParen left) room [] next left
  | extend {room : Nat} {previous : Option Token} {inParen : Bool} {operator next : Token}
      {xs ys : List Token} {left right tree : Tree}
      (infix_ : g.Continues inParen operator) (target : FitsTarget scopes operator left)
      (tighter : g.yields previous operator = false)
      (operand : Reads scopes (.binding (some operator) inParen) room xs (firstOf ys next) right)
      (low : 1 + max left.height right.height ≤ g.maxDepth)
      (others : Reads scopes (.extension previous inParen (pair operator left right)) room ys next
        tree) :
      Reads scopes (.extension previous inParen left) room (operator :: (xs ++ ys)) next tree

variable {g}

theorem height_pair (operator : Token) (left right : Tree) :
    (pair operator left right).height = 1 + max left.height right.height := by
  unfold pair
  split
  · rw [Tree.height_assignment, Nat.add_comm]
  · rw [Tree.height_binary, Nat.add_comm]

/-! ## Reading off a run -/

/-- The run from `s` to `t` reads a phrase, whatever comes behind it. -/
def ReadsRun (g : Grammar) (phrase : Phrase) (room : Nat) (s t : ParseState) (tree : Tree) : Prop :=
  ∃ tokens, Advance g s tokens t ∧
    ∀ next, NextIs t next → Reads g s.scopes phrase room tokens next tree

theorem ReadsRun.of_advance {phrase : Phrase} {room : Nat} {s t u : ParseState} {tree : Tree}
    (h : Advance g s [] t) (hr : ReadsRun g phrase room t u tree) :
    ReadsRun g phrase room s u tree := by
  obtain ⟨tokens, hu, hreads⟩ := hr
  exact ⟨tokens, h.trans hu, h.scopes ▸ hreads⟩

theorem reads_of_literal {s t : ParseState} {token : Token} {tree : Tree} (room : Nat)
    (ha : s.tokens.ahead = some token) (rule : g.operands.get? token.kind = some .literal)
    (h : g.literal s = .ok tree t) : ReadsRun g .operand room s t tree := by
  obtain ⟨found, u, hc, h⟩ := bind_eq_ok_iff.mp h
  obtain rfl := eq_of_consume ha hc
  rcases hk : g.vocabulary.literalType? found.kind with _ | type <;> rw [hk] at h
  · exact absurd h throw_ne_ok
  · obtain ⟨rfl, rfl⟩ := pure_eq_ok_iff.mp h
    exact ⟨_, advance_of_consume hc, fun _ _ => .literal rule hk⟩

theorem reads_of_symbol {s t : ParseState} {token : Token} {tree : Tree} (room : Nat)
    (ha : s.tokens.ahead = some token) (rule : g.operands.get? token.kind = some .symbol)
    (h : g.symbol s = .ok tree t) : ReadsRun g .operand room s t tree := by
  obtain ⟨found, u, hc, h⟩ := bind_eq_ok_iff.mp h
  obtain rfl := eq_of_consume ha hc
  have hu := advance_of_consume hc
  obtain ⟨_, w, hg, h⟩ := bind_eq_ok_iff.mp h
  obtain ⟨rfl, rfl⟩ := get_eq_ok_iff.mp hg
  rcases hl : u.scopes.lookup found.value with _ | symbol <;> rw [hl] at h
  · exact absurd h throw_ne_ok
  · obtain ⟨rfl, rfl⟩ := pure_eq_ok_iff.mp h
    exact ⟨_, hu, fun _ _ => .symbol rule (hu.scopes ▸ hl)⟩

/-- What goes on inside parentheses: a level is opened, and closed behind the `)`. -/
theorem reads_of_groupOf {room : Nat} {s t : ParseState} {token : Token} {tree : Tree}
    (ih : ∀ s t tree, g.bindingIn room none true s = .ok (some tree) t →
      ReadsRun g (.binding none true) room s t tree)
    (ha : s.tokens.ahead = some token) (rule : g.operands.get? token.kind = some .grouping)
    (h : g.groupOf (do deepen; g.bindingIn room none true) s = .ok tree t) :
    ReadsRun g .operand (room + 1) s t tree := by
  obtain ⟨opening, u, hc, h⟩ := bind_eq_ok_iff.mp h
  obtain rfl := eq_of_consume ha hc
  have hu := advance_of_consume hc
  obtain ⟨r, w, hb, h⟩ := bind_eq_ok_iff.mp h
  obtain ⟨_, u', hd, hb⟩ := bind_eq_ok_iff.mp hb
  obtain rfl := modify_eq_ok_iff.mp hd
  cases r with
  | none => exact absurd h throw_ne_ok
  | some found =>
    obtain ⟨tokens, hw, hr⟩ := ih _ _ _ hb
    obtain ⟨_, x, he, h⟩ := bind_eq_ok_iff.mp h
    obtain ⟨closing, hk, hx⟩ := advance_of_discard_expectOr he
    obtain ⟨_, y, hl, h⟩ := bind_eq_ok_iff.mp h
    obtain rfl := modify_eq_ok_iff.mp hl
    obtain ⟨rfl, rfl⟩ := pure_eq_ok_iff.mp h
    refine ⟨_, hu.trans (hw.trans hx).of_deepened, fun _ _ => .group rule ?_ hk⟩
    rw [← hu.scopes]
    exact hr closing hx.nextIs_cons

/-- An operand is there exactly if its first token has a rule. -/
theorem reads_of_operandOf {room : Nat} {s t : ParseState} {group : ParseM Tree} {r : Option Tree}
    (hgroup : ∀ s t token tree, s.tokens.ahead = some token →
      g.operands.get? token.kind = some .grouping → group s = .ok tree t →
        ReadsRun g .operand room s t tree)
    (h : g.operandOf group s = .ok r t) :
    (∃ tree, r = some tree ∧ ReadsRun g .operand room s t tree) ∨
      (r = none ∧ Advance g s [] t ∧ ∃ next, t.tokens.ahead = some next ∧
        g.operands.get? next.kind = none) := by
  obtain ⟨kind, u, hk, h⟩ := bind_eq_ok_iff.mp h
  obtain ⟨token, rfl, hu, ha⟩ := advance_of_currentKind hk
  rcases rule : g.operands.get? token.kind with _ | _ | _ | _ <;> rw [rule] at h
  · obtain ⟨rfl, rfl⟩ := pure_eq_ok_iff.mp h
    exact .inr ⟨rfl, hu, token, ha, rule⟩
  · obtain ⟨tree, hx, rfl⟩ := map_eq_ok_iff.mp h
    exact .inl ⟨tree, rfl, .of_advance hu (reads_of_literal room ha rule hx)⟩
  · obtain ⟨tree, hx, rfl⟩ := map_eq_ok_iff.mp h
    exact .inl ⟨tree, rfl, .of_advance hu (reads_of_symbol room ha rule hx)⟩
  · obtain ⟨tree, hx, rfl⟩ := map_eq_ok_iff.mp h
    exact .inl ⟨tree, rfl, .of_advance hu (hgroup _ _ _ _ ha rule hx)⟩

/-- A token with which no operand starts. -/
def StartsNone (g : Grammar) (token : Token) : Prop :=
  g.vocabulary.isBefore token.kind = false ∧ g.operands.get? token.kind = none

/-- The run from `s` to `t` finds no operand and takes nothing. -/
def FindsNone (g : Grammar) (s t : ParseState) : Prop :=
  Advance g s [] t ∧ ∃ next, t.tokens.ahead = some next ∧ StartsNone g next

theorem reads_of_trailedOf {room : Nat} {s t : ParseState} {group : ParseM Tree}
    {r : Option Tree} {token : Token} (ha : s.tokens.ahead = some token)
    (hb : g.vocabulary.isBefore token.kind = false)
    (hgroup : ∀ s t token tree, s.tokens.ahead = some token →
      g.operands.get? token.kind = some .grouping → group s = .ok tree t →
        ReadsRun g .operand room s t tree)
    (h : g.trailedOf group s = .ok r t) :
    (∃ tree, r = some tree ∧ ReadsRun g .signed room s t tree) ∨ (r = none ∧ FindsNone g s t) := by
  obtain ⟨r', u, ho, h⟩ := bind_eq_ok_iff.mp h
  rcases reads_of_operandOf hgroup ho with ⟨tree, rfl, xs, hu, hreads⟩ | ⟨rfl, hu, next, hn, hnone⟩
  · obtain ⟨kind, w, hk, h⟩ := bind_eq_ok_iff.mp h
    obtain ⟨next, rfl, hw, hn⟩ := advance_of_currentKind hk
    have hun : NextIs u next := hw.nextIs (.of_ahead hn)
    have hfirst : g.vocabulary.isBefore (firstOf xs next).kind = false := by
      rw [hu.first ha hun, hb]
    by_cases hafter : g.vocabulary.isAfter next.kind = true
    · rw [if_pos hafter] at h
      obtain ⟨operator, x, hc, h⟩ := bind_eq_ok_iff.mp h
      obtain rfl := eq_of_consume hn hc
      obtain ⟨rfl, rfl⟩ := pure_eq_ok_iff.mp h
      exact .inl ⟨_, rfl, _, hu.trans (hw.trans (advance_of_consume hc)), fun _ _ =>
        .trailed hfirst (hreads _ hun) hafter⟩
    · rw [if_neg hafter] at h
      obtain ⟨rfl, rfl⟩ := pure_eq_ok_iff.mp h
      have hsw := hu.trans hw
      rw [List.append_nil] at hsw
      refine .inl ⟨tree, rfl, xs, hsw, fun next' hn' => ?_⟩
      obtain rfl := hn' next hn
      exact .plain hfirst (hreads _ hun) (Bool.not_eq_true _ ▸ hafter)
  · obtain ⟨rfl, rfl⟩ := pure_eq_ok_iff.mp h
    have hnext : next = token := hu.first ha (.of_ahead hn)
    exact .inr ⟨rfl, hu, next, hn, hnext ▸ hb, hnone⟩

/-! ## Operators between operands -/

theorem fitsTarget_of_checkTarget {operator : Token} {target : Tree} {s t : ParseState} {u : Unit}
    (h : checkTarget operator target s = .ok u t) :
    t = s ∧ FitsTarget s.scopes operator target := by
  unfold checkTarget at h
  by_cases ha : operator.kind = .assignment
  · rw [if_pos ha] at h
    cases target with
    | reference token type assignable =>
      obtain ⟨_, w, hg, h⟩ := bind_eq_ok_iff.mp h
      obtain ⟨rfl, rfl⟩ := get_eq_ok_iff.mp hg
      rcases hl : s.scopes.lookup token.value with _ | symbol <;> rw [hl] at h
      · exact absurd h throw_ne_ok
      · by_cases hm : symbol.assignable = true
        · simp only [if_pos hm] at h
          obtain ⟨-, rfl⟩ := pure_eq_ok_iff.mp h
          exact ⟨rfl, fun _ => ⟨token, type, assignable, symbol, rfl, hl, hm⟩⟩
        · simp only [if_neg hm] at h
          exact absurd h throw_ne_ok
    | _ => exact absurd h throw_ne_ok
  · rw [if_neg ha] at h
    obtain ⟨-, rfl⟩ := pure_eq_ok_iff.mp h
    exact ⟨rfl, fun ha' => absurd ha' ha⟩

/-- One round of climbing looks at the next token, and then either stops in front of it or takes it
as an operator and reads what stands to its right. -/
theorem climb_cases {rightOperand : Token → ParseM (Option Tree)} {previous : Option Token}
    {inParen : Bool} {left tree : Tree} {height : Nat} {s t : ParseState}
    (h : g.climb rightOperand previous inParen left height s = .ok tree t) :
    ∃ token u, Advance g s [] u ∧ u.tokens.ahead = some token ∧
      ((g.Ends inParen token ∧ tree = left ∧ t = u) ∨
        (g.Continues inParen token ∧ FitsTarget u.scopes token left ∧
          ((g.yields previous token = true ∧ tree = left ∧ t = u) ∨
            (g.yields previous token = false ∧ ∃ right w,
              rightOperand token (u.behind token) = .ok (some right) w ∧
              1 + max height right.height ≤ g.maxDepth ∧
              g.climb rightOperand previous inParen (pair token left right)
                (1 + max height right.height) w = .ok tree t)))) := by
  rw [climb] at h
  obtain ⟨_, w, hround, h⟩ := bind_eq_ok_iff.mp h
  obtain ⟨token, u, hl, h⟩ := bind_eq_ok_iff.mp h
  obtain ⟨hu, ha⟩ := advance_of_lookahead hl
  have hu := (advance_of_beginRound hround).trans hu
  obtain ⟨_, u', hg, h⟩ := bind_eq_ok_iff.mp h
  obtain ⟨rfl, rfl⟩ := get_eq_ok_iff.mp hg
  refine ⟨token, u, hu, ha, ?_⟩
  rcases hafter : g.afterOperand inParen u.previous token with cause | _ | _ <;> rw [hafter] at h
  · exact absurd h throw_ne_ok
  · obtain ⟨rfl, rfl⟩ := pure_eq_ok_iff.mp h
    exact .inl ⟨⟨_, hafter⟩, rfl, rfl⟩
  · obtain ⟨_, u', hc, hgo⟩ := bind_eq_ok_iff.mp h
    obtain ⟨rfl, hfit⟩ := fitsTarget_of_checkTarget hc
    refine .inr ⟨⟨_, hafter⟩, hfit, ?_⟩
    by_cases hy : g.yields previous token = true
    · rw [if_pos hy] at hgo
      obtain ⟨rfl, rfl⟩ := pure_eq_ok_iff.mp hgo
      exact .inl ⟨hy, rfl, rfl⟩
    · rw [if_neg hy] at hgo
      obtain ⟨operator, x, hx, hgo⟩ := bind_eq_ok_iff.mp hgo
      rw [consume_of_ahead g ha] at hx
      cases hx
      obtain ⟨r, w, hr, hgo⟩ := bind_eq_ok_iff.mp hgo
      cases r with
      | none => exact absurd hgo throw_ne_ok
      | some right =>
        by_cases hlow : g.maxDepth < 1 + max height right.height
        · simp only [dif_pos hlow] at hgo
          obtain ⟨_, _, _, hgo⟩ := bind_eq_ok_iff.mp hgo
          exact absurd hgo throw_ne_ok
        · simp only [dif_neg hlow] at hgo
          exact .inr ⟨Bool.not_eq_true _ ▸ hy, right, w, hr, Nat.le_of_not_lt hlow, hgo⟩

theorem reads_of_climb {room : Nat} {rightOperand : Token → ParseM (Option Tree)}
    {previous : Option Token} {inParen : Bool} {left tree : Tree} {s t : ParseState}
    (ih : ∀ operator s t tree, rightOperand operator s = .ok (some tree) t →
      ReadsRun g (.binding (some operator) inParen) room s t tree)
    (h : g.climb rightOperand previous inParen left left.height s = .ok tree t) :
    ReadsRun g (.extension previous inParen left) room s t tree := by
  obtain ⟨token, u, hu, ha, ⟨hend, rfl, rfl⟩ | ⟨hop, hfit, ⟨hy, rfl, rfl⟩ | ⟨hy, right, w, hr, hlow,
    hrest⟩⟩⟩ := climb_cases h
  · refine ⟨[], hu, fun next hn => ?_⟩
    obtain rfl := hn token ha
    exact .ends hend
  · refine ⟨[], hu, fun next hn => ?_⟩
    obtain rfl := hn token ha
    exact .yields hop (hu.scopes ▸ hfit) hy
  · have hpair : 1 + max left.height right.height = (pair token left right).height :=
      (height_pair token left right).symm
    have hterm : g.maxDepth - (pair token left right).height < g.maxDepth - left.height := by omega
    obtain ⟨xs, hw, hright⟩ := ih _ _ _ _ hr
    -- the pair is the left operand of the next round
    obtain ⟨ys, ht, hothers⟩ := reads_of_climb ih (hpair ▸ hrest)
    have hb := advance_behind (g := g) ha
    have hs : (u.behind token).scopes = s.scopes := (hu.trans hb).scopes
    refine ⟨token :: (xs ++ ys), hu.trans (hb.trans (hw.trans ht)), fun next hn => ?_⟩
    rw [hw.scopes, hs] at hothers
    rw [hs] at hright
    exact .extend hop (hu.scopes ▸ hfit) hy (hright _ (ht.nextIs hn)) hlow (hothers next hn)
termination_by g.maxDepth - left.height

/-! ## Nested rules -/

/-- What a run of the rule for signed operands does, if it succeeds. -/
def SignedRun (g : Grammar) (room : Nat) (s t : ParseState) (r : Option Tree) : Prop :=
  (∃ tree, r = some tree ∧ ReadsRun g .signed room s t tree) ∨ (r = none ∧ FindsNone g s t)

/-- What a run of the rule for operands joined by operators does, if it succeeds. -/
def BindingRun (g : Grammar) (previous : Option Token) (inParen : Bool) (room : Nat)
    (s t : ParseState) (r : Option Tree) : Prop :=
  (∃ tree, r = some tree ∧ ReadsRun g (.binding previous inParen) room s t tree) ∨
    (r = none ∧ previous = none ∧ Advance g s [] t ∧ ∃ next, t.tokens.ahead = some next ∧
      StartsNone g next ∧ g.insteadOfOperand inParen next = none)

theorem SignedRun.of_advance {room : Nat} {s t u : ParseState} {r : Option Tree}
    (h : Advance g s [] t) (hr : SignedRun g room t u r) : SignedRun g room s u r := by
  rcases hr with ⟨tree, rfl, hr⟩ | ⟨rfl, hu, hn⟩
  · exact .inl ⟨tree, rfl, .of_advance h hr⟩
  · exact .inr ⟨rfl, h.trans hu, hn⟩

theorem BindingRun.reads {previous : Option Token} {inParen : Bool} {room : Nat}
    {s t : ParseState} {tree : Tree} (h : BindingRun g previous inParen room s t (some tree)) :
    ReadsRun g (.binding previous inParen) room s t tree := by
  rcases h with ⟨found, hf, hr⟩ | ⟨hf, _⟩
  · cases hf
    exact hr
  · cases hf

theorem exceedDepth_ne_ok {α : Type} {s t : ParseState} {a : α} :
    (g.exceedDepth : ParseM α) s ≠ .ok a t := by
  intro h
  obtain ⟨_, _, _, h⟩ := bind_eq_ok_iff.mp h
  obtain ⟨_, _, _, h⟩ := bind_eq_ok_iff.mp h
  obtain ⟨_, _, _, h⟩ := bind_eq_ok_iff.mp h
  exact throw_ne_ok h

/-- Without room for another level there is neither a sign nor a parenthesis. -/
theorem reads_of_signedIn_zero {s t : ParseState} {r : Option Tree}
    (h : g.signedIn 0 s = .ok r t) : SignedRun g 0 s t r := by
  rw [signedIn] at h
  obtain ⟨kind, u, hk, h⟩ := bind_eq_ok_iff.mp h
  obtain ⟨token, rfl, hu, ha⟩ := advance_of_currentKind hk
  by_cases hb : g.vocabulary.isBefore token.kind = true
  · rw [if_pos hb] at h
    obtain ⟨_, _, _, h⟩ := bind_eq_ok_iff.mp h
    exact absurd h exceedDepth_ne_ok
  · rw [if_neg hb] at h
    refine .of_advance hu (reads_of_trailedOf ha (Bool.not_eq_true _ ▸ hb) ?_ h)
    intro s' t' token' tree' _ _ hgroup
    obtain ⟨_, _, _, hgroup⟩ := bind_eq_ok_iff.mp hgroup
    obtain ⟨_, _, hcontent, _⟩ := bind_eq_ok_iff.mp hgroup
    exact absurd hcontent exceedDepth_ne_ok

theorem reads_of_signedIn_succ {room : Nat} {s t : ParseState} {r : Option Tree}
    (ihs : ∀ s t r, g.signedIn room s = .ok r t → SignedRun g room s t r)
    (ihb : ∀ previous inParen s t r, g.bindingIn room previous inParen s = .ok r t →
      BindingRun g previous inParen room s t r)
    (h : g.signedIn (room + 1) s = .ok r t) : SignedRun g (room + 1) s t r := by
  rw [signedIn] at h
  obtain ⟨kind, u, hk, h⟩ := bind_eq_ok_iff.mp h
  obtain ⟨token, rfl, hu, ha⟩ := advance_of_currentKind hk
  by_cases hb : g.vocabulary.isBefore token.kind = true
  · rw [if_pos hb] at h
    obtain ⟨operator, w, hc, h⟩ := bind_eq_ok_iff.mp h
    obtain rfl := eq_of_consume ha hc
    have hw := advance_of_consume hc
    obtain ⟨_, w', hd, h⟩ := bind_eq_ok_iff.mp h
    obtain rfl := modify_eq_ok_iff.mp hd
    obtain ⟨r', x, hx, h⟩ := bind_eq_ok_iff.mp h
    obtain ⟨_, x', hl, h⟩ := bind_eq_ok_iff.mp h
    obtain rfl := modify_eq_ok_iff.mp hl
    rcases ihs _ _ _ hx with ⟨tree, rfl, tokens, hx', hr⟩ | ⟨rfl, _⟩
    · obtain ⟨rfl, rfl⟩ := pure_eq_ok_iff.mp h
      have hwx := hu.trans hw
      refine .inl ⟨_, rfl, operator :: tokens, hwx.trans hx'.of_deepened, fun next hn => ?_⟩
      rw [← hwx.scopes]
      exact .sign hb (hr next hn)
    · exact absurd h throw_ne_ok
  · rw [if_neg hb] at h
    refine .of_advance hu (reads_of_trailedOf ha (Bool.not_eq_true _ ▸ hb) ?_ h)
    intro s' t' token' tree' ha' rule hgroup
    exact reads_of_groupOf (fun s t tree hb => (ihb _ _ _ _ _ hb).reads) ha' rule hgroup

theorem reads_of_bindingIn_succ {room : Nat} {previous : Option Token} {inParen : Bool}
    {s t : ParseState} {r : Option Tree}
    (ihs : ∀ s t r, g.signedIn room s = .ok r t → SignedRun g room s t r)
    (ihb : ∀ previous inParen s t r, g.bindingIn room previous inParen s = .ok r t →
      BindingRun g previous inParen room s t r)
    (h : g.bindingIn (room + 1) previous inParen s = .ok r t) :
    BindingRun g previous inParen (room + 1) s t r := by
  unfold bindingIn at h
  obtain ⟨_, s', hd, h⟩ := bind_eq_ok_iff.mp h
  obtain rfl := modify_eq_ok_iff.mp hd
  obtain ⟨r', u, hu, h⟩ := bind_eq_ok_iff.mp h
  rcases ihs _ _ _ hu with ⟨left, rfl, xs, hu', hfirst⟩ | ⟨rfl, hu', next, hn, hnone⟩
  · obtain ⟨tree, w, hw, h⟩ := bind_eq_ok_iff.mp h
    obtain ⟨_, w', hl, h⟩ := bind_eq_ok_iff.mp h
    obtain rfl := modify_eq_ok_iff.mp hl
    obtain ⟨rfl, rfl⟩ := pure_eq_ok_iff.mp h
    obtain ⟨ys, hw', hothers⟩ :=
      reads_of_climb (fun operator s t tree hr => (ihb _ _ _ _ _ hr).reads) hw
    refine .inl ⟨tree, rfl, xs ++ ys, (hu'.trans hw').of_deepened, fun next hn => ?_⟩
    exact .binding (hfirst _ (hw'.nextIs hn)) (hu'.scopes ▸ hothers next hn)
  · cases previous with
    | some operator =>
      obtain ⟨_, _, _, h⟩ := bind_eq_ok_iff.mp h
      exact absurd h throw_ne_ok
    | none =>
      obtain ⟨token, w, hl, h⟩ := bind_eq_ok_iff.mp h
      rw [lookahead_of_ahead hn] at hl
      cases hl
      rcases hi : g.insteadOfOperand inParen next with _ | cause <;> rw [hi] at h
      · obtain ⟨_, w', hl, h⟩ := bind_eq_ok_iff.mp h
        obtain rfl := modify_eq_ok_iff.mp hl
        obtain ⟨rfl, rfl⟩ := pure_eq_ok_iff.mp h
        exact .inr ⟨rfl, rfl, hu'.of_deepened, next, hn, hnone, hi⟩
      · exact absurd h throw_ne_ok

theorem reads_of_nested (room : Nat) :
    (∀ s t r, g.signedIn room s = .ok r t → SignedRun g room s t r) ∧
      ∀ previous inParen s t r, g.bindingIn room previous inParen s = .ok r t →
        BindingRun g previous inParen room s t r := by
  induction room with
  | zero =>
    refine ⟨fun s t r => reads_of_signedIn_zero, fun previous inParen s t r h => ?_⟩
    rw [bindingIn] at h
    exact absurd h exceedDepth_ne_ok
  | succ room ih =>
    exact ⟨fun s t r => reads_of_signedIn_succ ih.1 ih.2,
      fun previous inParen s t r => reads_of_bindingIn_succ ih.1 ih.2⟩

/-- **A successful run of the rule reads a phrase**, or finds nothing and takes nothing. -/
theorem reads_of_bindingIn {room : Nat} {previous : Option Token} {inParen : Bool}
    {s t : ParseState} {r : Option Tree} (h : g.bindingIn room previous inParen s = .ok r t) :
    BindingRun g previous inParen room s t r :=
  (reads_of_nested room).2 previous inParen s t r h

end ExprLang.Grammar
