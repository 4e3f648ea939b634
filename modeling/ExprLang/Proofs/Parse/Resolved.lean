import Mathlib.Tactic.SplitIfs
import ExprLang.Proofs.Parse.Phrase

/-!
# Resolved expressions

The trees of expressions, with respect to the scopes they are read in.

* `Resolved`: literals have the types of their kinds, names are those of symbols in scope, and only
  assignable ones are assigned to.
* **`Reads.resolved`**: the tree of a phrase is resolved.
* `Resolved.check`: so is the tree that the type check makes of it.
-/

namespace ExprLang

/-- The tree of an expression all of whose names are in scope. -/
inductive Resolved (v : Vocabulary) (scopes : Scopes) : Tree → Prop
  | literal {token : Token} {type : DataType} (known : v.literalType? token.kind = some type) :
      Resolved v scopes (.literal token type)
  | reference {token : Token} {symbol : Symbol} (known : scopes.lookup token.value = some symbol) :
      Resolved v scopes (.reference token symbol.type symbol.assignable)
  | unary {operator : Token} {type : Option DataType} {operand : Tree}
      (inner : Resolved v scopes operand) : Resolved v scopes (.unary operator type operand)
  | binary {operator : Token} {type : Option DataType} {left right : Tree}
      (first : Resolved v scopes left) (second : Resolved v scopes right) :
      Resolved v scopes (.binary operator type left right)
  | assignment {operator token : Token} {type : Option DataType} {symbol : Symbol} {value : Tree}
      (known : scopes.lookup token.value = some symbol) (assignable : symbol.assignable = true)
      (source : Resolved v scopes value) :
      Resolved v scopes
        (.assignment operator type (.reference token symbol.type symbol.assignable) value)

namespace Resolved

variable {v : Vocabulary} {scopes : Scopes}

theorem isEmpty_eq_false {tree : Tree} (h : Resolved v scopes tree) : tree.isEmpty = false := by
  cases h <;> rfl

theorem check {tree : Tree} (h : Resolved v scopes tree) (table : TypingTable) :
    Resolved v scopes (tree.check table).tree := by
  induction h with
  | literal known => exact .literal known
  | reference known => exact .reference known
  | unary _ ih => exact .unary ih
  | binary first second ih ih' =>
    rw [Tree.check]
    refine .binary ih ?_
    split_ifs
    · exact second
    · exact ih'
  | assignment known assignable _ ih => exact .assignment known assignable ih

end Resolved

namespace Grammar

variable {g : Grammar} {scopes : Scopes}

/-- An operator between two resolved trees, of which the left one may stand there. -/
theorem resolved_pair {operator : Token} {left right : Tree}
    (hl : Resolved g.vocabulary scopes left) (hr : Resolved g.vocabulary scopes right)
    (target : FitsTarget scopes operator left) :
    Resolved g.vocabulary scopes (pair operator left right) := by
  unfold pair
  split
  · next h =>
    obtain ⟨token, type, assignable, symbol, rfl, hs, hm⟩ := target h
    cases hl with
    | reference known =>
      obtain rfl := Option.some.inj (known.symm.trans hs)
      exact .assignment known hm hr
  · exact .binary hl hr

/-- **The tree of a phrase is resolved**, given that what an extension extends is. -/
theorem Reads.resolved {phrase : Phrase} {room : Nat} {tokens : List Token} {next : Token}
    {tree : Tree} (h : Reads g scopes phrase room tokens next tree)
    (hleft : ∀ previous inParen left, phrase = .extension previous inParen left →
      Resolved g.vocabulary scopes left) : Resolved g.vocabulary scopes tree := by
  induction h with
  | literal _ known => exact .literal known
  | symbol _ known => exact .reference known
  | group _ _ _ ih => exact ih fun _ _ _ h => nomatch h
  | sign _ _ ih => exact .unary (ih fun _ _ _ h => nomatch h)
  | plain _ _ _ ih => exact ih fun _ _ _ h => nomatch h
  | trailed _ _ _ ih => exact .unary (ih fun _ _ _ h => nomatch h)
  | binding _ _ ihf iho =>
    refine iho fun _ _ _ h => ?_
    cases h
    exact ihf fun _ _ _ h => nomatch h
  | ends | yields => exact hleft _ _ _ rfl
  | extend _ target _ _ _ _ ihr iho =>
    refine iho fun _ _ _ h => ?_
    cases h
    exact resolved_pair (hleft _ _ _ rfl) (ihr fun _ _ _ h => nomatch h) target

theorem Reads.resolved_checked {previous : Option Token} {inParen : Bool} {room : Nat}
    {tokens : List Token} {next : Token} {tree checked : Tree} {fault : Option Diagnostic}
    (h : Reads g scopes (.binding previous inParen) room tokens next tree)
    (hc : tree.check g.typing = ⟨checked, fault⟩) : Resolved g.vocabulary scopes checked := by
  have hr := (h.resolved fun _ _ _ h => nomatch h).check g.typing
  rwa [hc] at hr

end Grammar

end ExprLang
