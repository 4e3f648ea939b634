import ExprLang.Grammar.Program
import ExprLang.Proofs.Parse.Resolved

/-!
# Passages of programs

Which tokens the rules for statements and blocks read, as which trees, and what they declare.

* `Passage`: statements, blocks, and sequences of both.
* `Forms`: the tokens of a passage, the trees it leaves, and the scopes before and behind it.
* `BodyRuns`: what the parts of a block read, and from that all its rounds.
* **`forms_of_parse`**: an accepted program is a sequence of statements and blocks.
-/

namespace ExprLang.Grammar

open TokenStream

variable (g : Grammar)

/-- The parts of a program. -/
inductive Passage where
  | statement
  | block
  /-- Statements and blocks, one after the other. -/
  | several
  deriving DecidableEq

/-- The tokens of a type clause and the type they name. -/
inductive Clause : List Token → Option DataType → Prop
  | absent : Clause [] none
  | present {colon name : Token} {type : DataType} (mark : colon.kind = .colon)
      (named : name.kind = .typeName) (known : g.vocabulary.typeNamed? name.value = some type) :
      Clause [colon, name] (some type)

/-- `Forms g passage room before tokens trees behind`: with room for so many levels, `tokens` are a
passage that leaves `trees` and turns the scopes `before` into `behind`. -/
inductive Forms : Passage → Nat → Scopes → List Token → List Tree → Scopes → Prop
  | semicolon {room : Nat} {scopes : Scopes} {token : Token} (mark : token.kind = .semicolon) :
      Forms .statement (room + 1) scopes [token] [] scopes
  | expression {room : Nat} {scopes : Scopes} {tokens : List Token} {token : Token}
      {tree checked : Tree} (mark : token.kind = .semicolon)
      (undeclared : (firstOf tokens token).kind ∉ g.declarators)
      (content : Reads g scopes (.binding none false) room tokens token tree)
      (typed : tree.check g.typing = ⟨checked, none⟩) :
      Forms .statement room scopes (tokens ++ [token]) [checked] scopes
  | bare {room : Nat} {scopes behind : Scopes} {keyword name token : Token}
      {clause : List Token} {type : DataType} (starts : keyword.kind ∈ g.declarators)
      (named : name.kind = .identifier) (annotated : Clause g clause (some type))
      (fresh : scopes.declare? ⟨name.value, keyword.kind == .varDecl, some type⟩ = some behind)
      (mark : token.kind = .semicolon) :
      Forms .statement room scopes (keyword :: name :: (clause ++ [token]))
        [.declaration name (some type) (keyword.kind == .varDecl)] behind
  | initialized {room : Nat} {scopes inner : Scopes} {keyword name operator token : Token}
      {clause tokens : List Token} {declared : Option DataType} {type : DataType}
      {tree value : Tree} (starts : keyword.kind ∈ g.declarators)
      (named : name.kind = .identifier) (annotated : Clause g clause declared)
      (fresh : scopes.declare? ⟨name.value, keyword.kind == .varDecl, declared⟩ = some inner)
      (equals : operator.kind = .assignment)
      (content : Reads g inner (.binding none false) room tokens token tree)
      (mark : token.kind = .semicolon) (typed : tree.check g.typing = ⟨value, none⟩)
      (unified : unify declared value.type? operator.line = .ok type) :
      Forms .statement room scopes (keyword :: name :: (clause ++ operator :: (tokens ++ [token])))
        [.assignment operator (some type)
          (.declaration name (some type) (keyword.kind == .varDecl)) value]
        (inner.resolve name.value type)
  | block {room : Nat} {scopes inner : Scopes} {opening closing : Token} {tokens : List Token}
      {trees : List Tree} (opens : opening.kind = .openCurly)
      (content : Forms .several (room + 1) scopes.push tokens trees inner)
      (closes : closing.kind = .closeCurly) :
      Forms .block (room + 2) scopes (opening :: (tokens ++ [closing]))
        (if trees.isEmpty then [] else [.block trees]) scopes
  | nil {room : Nat} {scopes : Scopes} : Forms .several room scopes [] [] scopes
  | cons {passage : Passage} {room : Nat} {scopes mid behind : Scopes} {xs ys : List Token}
      {us vs : List Tree} (single : passage ≠ .several)
      (first : Forms passage room scopes xs us mid)
      (rest : Forms .several room mid ys vs behind) :
      Forms .several room scopes (xs ++ ys) (us ++ vs) behind

variable {g}

/-- What is declared in a passage leaves the enclosing scopes as they are. -/
theorem Forms.enclosing {passage : Passage} {room : Nat} {before behind : Scopes}
    {tokens : List Token} {trees : List Tree}
    (h : Forms g passage room before tokens trees behind) :
    behind.enclosing = before.enclosing := by
  have hdeclare : ∀ {s t : Scopes} {symbol : Symbol}, s.declare? symbol = some t →
      t.enclosing = s.enclosing := by
    intro s t symbol hd
    unfold Scopes.declare? at hd
    split at hd
    · cases hd
    · cases hd
      rfl
  induction h with
  | semicolon | expression | block | nil => rfl
  | bare _ _ _ fresh _ => exact hdeclare fresh
  | initialized _ _ _ fresh _ _ _ _ _ => exact (hdeclare fresh :)
  | cons _ _ _ ih ih' => rw [ih', ih]

theorem Forms.append {room : Nat} {before mid behind : Scopes} {xs ys : List Token}
    {us vs : List Tree} (h : Forms g .several room before xs us mid)
    (h' : Forms g .several room mid ys vs behind) :
    Forms g .several room before (xs ++ ys) (us ++ vs) behind := by
  generalize hp : Passage.several = passage at h
  induction h with
  | semicolon | expression | bare | initialized | block => cases hp
  | nil => exact h'
  | cons single first _ _ ih =>
    rw [List.append_assoc, List.append_assoc]
    exact .cons single first (ih h' rfl)

/-! ## Reading off a run -/

/-- The run from `s` to `t` reads a passage. -/
def FormsRun (g : Grammar) (passage : Passage) (room : Nat) (s t : ParseState)
    (trees : List Tree) : Prop :=
  ∃ tokens, Takes g.vocabulary s.tokens tokens t.tokens ∧ t.depth = s.depth ∧
    Forms g passage room s.scopes tokens trees t.scopes

theorem FormsRun.of_advance {passage : Passage} {room : Nat} {s t u : ParseState}
    {trees : List Tree} (h : Advance g s [] t) (hr : FormsRun g passage room t u trees) :
    FormsRun g passage room s u trees := by
  obtain ⟨tokens, hu, hd, hf⟩ := hr
  exact ⟨tokens, h.takes.trans hu, hd.trans h.depth, h.scopes ▸ hf⟩

/-- A finished expression is one that has been typed without a fault. -/
theorem check_of_typed {tree checked : Tree} {s t : ParseState}
    (h : g.typed tree s = .ok checked t) : t = s ∧ tree.check g.typing = ⟨checked, none⟩ := by
  unfold typed at h
  rcases hc : tree.check g.typing with ⟨found, _ | d⟩ <;> rw [hc] at h
  · obtain ⟨rfl, rfl⟩ := pure_eq_ok_iff.mp h
    exact ⟨rfl, rfl⟩
  · obtain ⟨_, _, _, h⟩ := bind_eq_ok_iff.mp h
    exact absurd h throw_ne_ok

theorem room_pos_of_bindingIn {room : Nat} {previous : Option Token} {inParen : Bool}
    {s t : ParseState} {r : Option Tree} (h : g.bindingIn room previous inParen s = .ok r t) :
    0 < room := by
  cases room with
  | zero =>
    rw [bindingIn] at h
    exact absurd h exceedDepth_ne_ok
  | succ room => exact Nat.succ_pos room

theorem reads_of_expressionIn {room : Nat} {s t : ParseState} {r : Option Tree}
    (h : g.expressionIn room s = .ok r t) :
    0 < room ∧
      ((∃ tokens token tree checked, r = some checked ∧ token.kind = .semicolon ∧
          Advance g s (tokens ++ [token]) t ∧
          Reads g s.scopes (.binding none false) room tokens token tree ∧
          tree.check g.typing = ⟨checked, none⟩) ∨
        (∃ token, r = some .empty ∧ token.kind = .semicolon ∧ Advance g s [token] t) ∨
        (r = none ∧ Advance g s [] t ∧ ∃ next, t.tokens.ahead = some next ∧
          next.kind ≠ .semicolon)) := by
  obtain ⟨r', u, hb, h⟩ := bind_eq_ok_iff.mp h
  refine ⟨room_pos_of_bindingIn hb, ?_⟩
  rcases reads_of_bindingIn hb with ⟨tree, rfl, tokens, hu, hreads⟩ | ⟨rfl, -, hu, -⟩
  · obtain ⟨_, w, he, h⟩ := bind_eq_ok_iff.mp h
    obtain ⟨token, hk, hw⟩ := advance_of_discard_expectOr he
    obtain ⟨checked, hc, rfl⟩ := map_eq_ok_iff.mp h
    obtain ⟨rfl, hcheck⟩ := check_of_typed hc
    have hr := hreads token hw.nextIs_cons
    exact .inl ⟨tokens, token, tree, checked, rfl, hk, hu.trans hw, hr, hcheck⟩
  · obtain ⟨r'', w, ha, h⟩ := bind_eq_ok_iff.mp h
    obtain ⟨rfl, rfl⟩ := pure_eq_ok_iff.mp h
    rcases advance_of_accept ha with ⟨token, rfl, hk, hw⟩ | ⟨rfl, hw, next, hn, hk⟩
    · exact .inr (.inl ⟨token, rfl, hk, hu.trans hw⟩)
    · exact .inr (.inr ⟨rfl, hu.trans hw, next, hn, hk⟩)

theorem Forms.isEmpty_eq_false {passage : Passage} {room : Nat} {before behind : Scopes}
    {tokens : List Token} {trees : List Tree}
    (h : Forms g passage room before tokens trees behind) :
    ∀ tree ∈ trees, tree.isEmpty = false := by
  induction h with
  | semicolon | nil => exact List.forall_mem_nil _
  | expression _ _ content typed =>
    rw [List.forall_mem_singleton]
    exact (content.resolved_checked typed).isEmpty_eq_false
  | bare | initialized => exact List.forall_mem_singleton.mpr rfl
  | block =>
    split
    · exact List.forall_mem_nil _
    · exact List.forall_mem_singleton.mpr rfl
  | cons _ _ _ ih ih' => exact List.forall_mem_append.mpr ⟨ih, ih'⟩

/-! ## Declarations -/

theorem clause_of_typeClause {s t : ParseState} {r : Option DataType}
    (h : g.typeClause s = .ok r t) : ∃ clause, Advance g s clause t ∧ Clause g clause r := by
  obtain ⟨r', u, ha, h⟩ := bind_eq_ok_iff.mp h
  rcases advance_of_accept ha with ⟨colon, rfl, hk, hu⟩ | ⟨rfl, hu, -⟩
  · obtain ⟨name, w, he, h⟩ := bind_eq_ok_iff.mp h
    obtain ⟨hn, hw⟩ := advance_of_expectOr he
    rcases ht : g.vocabulary.typeNamed? name.value with _ | type <;> rw [ht] at h
    · exact absurd h throw_ne_ok
    · obtain ⟨rfl, rfl⟩ := pure_eq_ok_iff.mp h
      exact ⟨_, hu.trans hw, .present hk hn ht⟩
  · obtain ⟨rfl, rfl⟩ := pure_eq_ok_iff.mp h
    exact ⟨[], hu, .absent⟩

theorem declare_eq_ok {symbol : Symbol} {line : UInt32} {s t : ParseState} {u : Unit}
    (h : declare symbol line s = .ok u t) :
    ∃ scopes, s.scopes.declare? symbol = some scopes ∧ t = { s with scopes := scopes } := by
  obtain ⟨_, w, hg, h⟩ := bind_eq_ok_iff.mp h
  obtain ⟨rfl, rfl⟩ := get_eq_ok_iff.mp hg
  rcases hd : s.scopes.declare? symbol with _ | scopes
  · have : s.scopes.declare symbol line = .error ⟨.alreadyDeclared symbol.id, line⟩ := by
      unfold Scopes.declare
      rw [hd]
    rw [this] at h
    exact absurd h throw_ne_ok
  · have : s.scopes.declare symbol line = .ok scopes := by
      unfold Scopes.declare
      rw [hd]
    rw [this] at h
    exact ⟨scopes, rfl, (modify_eq_ok_iff.mp h).symm⟩

theorem reads_of_initializerIn {room : Nat} {operator : Token} {s t : ParseState} {value : Tree}
    (h : g.initializerIn room operator s = .ok value t) :
    ∃ tokens token tree, token.kind = .semicolon ∧ Advance g s (tokens ++ [token]) t ∧
      Reads g s.scopes (.binding none false) room tokens token tree ∧
      tree.check g.typing = ⟨value, none⟩ := by
  obtain ⟨r, u, he, h⟩ := bind_eq_ok_iff.mp h
  rcases reads_of_expressionIn he with
    ⟨-, ⟨tokens, token, tree, checked, rfl, hk, hu, hr, hc⟩ | ⟨token, rfl, -⟩ | ⟨rfl, -⟩⟩
  · simp only [(hr.resolved_checked hc).isEmpty_eq_false, Bool.false_eq_true, if_false] at h
    obtain ⟨rfl, rfl⟩ := pure_eq_ok_iff.mp h
    exact ⟨tokens, token, tree, hk, hu, hr, hc⟩
  · exact absurd h throw_ne_ok
  · exact absurd h throw_ne_ok

theorem forms_of_declarationIn {room : Nat} {first : Token} {s t : ParseState} {tree : Tree}
    (ha : s.tokens.ahead = some first) (starts : first.kind ∈ g.declarators)
    (h : g.declarationIn room s = .ok tree t) : FormsRun g .statement room s t [tree] := by
  obtain ⟨keyword, u, hc, h⟩ := bind_eq_ok_iff.mp h
  obtain rfl := eq_of_consume ha hc
  have hu := advance_of_consume hc
  obtain ⟨name, w, he, h⟩ := bind_eq_ok_iff.mp h
  obtain ⟨hname, hw⟩ := advance_of_expectOr he
  obtain ⟨declared, x, ht, h⟩ := bind_eq_ok_iff.mp h
  obtain ⟨clause, hx, hclause⟩ := clause_of_typeClause ht
  obtain ⟨_, y, hn, h⟩ := bind_eq_ok_iff.mp h
  have hy := hu.trans (hw.trans (hx.trans (advance_of_note hn)))
  obtain ⟨_, z, hd, h⟩ := bind_eq_ok_iff.mp h
  obtain ⟨scopes, hfresh, rfl⟩ := declare_eq_ok hd
  rw [hy.scopes] at hfresh
  obtain ⟨r, p, hr, h⟩ := bind_eq_ok_iff.mp h
  rcases advance_of_accept hr with ⟨operator, rfl, hk, hp⟩ | ⟨rfl, hp, -⟩
  · obtain ⟨value, q, hv, h⟩ := bind_eq_ok_iff.mp h
    obtain ⟨tokens, token, tree', hsemi, hq, hreads, hcheck⟩ := reads_of_initializerIn hv
    rcases hunify : unify declared value.type? operator.line with d | type <;> rw [hunify] at h
    · exact absurd h throw_ne_ok
    · obtain ⟨_, q', hres, h⟩ := bind_eq_ok_iff.mp h
      obtain rfl := modify_eq_ok_iff.mp hres
      obtain ⟨rfl, rfl⟩ := pure_eq_ok_iff.mp h
      have hpq := hp.trans hq
      have hscopes : q.scopes = scopes := hpq.scopes
      refine ⟨keyword :: name :: (clause ++ operator :: (tokens ++ [token])), ?_, ?_, ?_⟩
      · simpa using hy.takes.trans hpq.takes
      · exact hpq.depth.trans hy.depth
      · rw [hp.scopes] at hreads
        simp only [hscopes]
        exact .initialized starts hname hclause hfresh hk hreads hsemi hcheck hunify
  · cases declared with
    | none => exact absurd h throw_ne_ok
    | some type =>
      obtain ⟨_, q, he, h⟩ := bind_eq_ok_iff.mp h
      obtain ⟨token, hsemi, hq⟩ := advance_of_discard_expectOr he
      obtain ⟨rfl, rfl⟩ := pure_eq_ok_iff.mp h
      have hpq := hp.trans hq
      have hscopes : q.scopes = scopes := hpq.scopes
      refine ⟨keyword :: name :: (clause ++ [token]), ?_, ?_, ?_⟩
      · simpa using hy.takes.trans hpq.takes
      · exact hpq.depth.trans hy.depth
      · rw [hscopes]
        exact .bare starts hname hclause hfresh hsemi

/-! ## Statements and blocks -/

/-- What a run of the rule for statements or that for blocks does, if it succeeds. -/
def PassageRun (g : Grammar) (passage : Passage) (room : Nat) (s t : ParseState)
    (kept : Option Tree → Option Tree) (r : Option Tree) : Prop :=
  (∃ tree, r = some tree ∧ FormsRun g passage room s t (kept r).toList) ∨
    (r = none ∧ Advance g s [] t)

theorem keepStatement_eq {tree : Tree} (h : tree.isEmpty = false) :
    keepStatement (some tree) = some tree := by
  simp [keepStatement, h]

theorem forms_of_statementIn {room : Nat} {s t : ParseState} {r : Option Tree}
    (h : g.statementIn room s = .ok r t) : PassageRun g .statement room s t keepStatement r := by
  obtain ⟨kind, u, hk, h⟩ := bind_eq_ok_iff.mp h
  obtain ⟨first, rfl, hu, ha⟩ := advance_of_currentKind hk
  by_cases hd : g.declarators.contains first.kind = true
  · rw [if_pos hd] at h
    obtain ⟨tree, hx, rfl⟩ := map_eq_ok_iff.mp h
    have hf := forms_of_declarationIn ha (List.contains_iff_mem.mp hd) hx
    refine .inl ⟨tree, rfl, .of_advance hu ?_⟩
    obtain ⟨tokens, ht, hdepth, hforms⟩ := hf
    rw [keepStatement_eq (hforms.isEmpty_eq_false tree List.mem_cons_self)]
    exact ⟨tokens, ht, hdepth, hforms⟩
  · rw [if_neg hd] at h
    obtain ⟨hroom, ⟨tokens, token, tree, checked, rfl, hsemi, hw, hreads, hcheck⟩ |
      ⟨token, rfl, hsemi, hw⟩ | ⟨rfl, hw, -⟩⟩ := reads_of_expressionIn h
    · refine .inl ⟨checked, rfl, .of_advance hu ⟨tokens ++ [token], hw.takes, hw.depth, ?_⟩⟩
      rw [hw.scopes, keepStatement_eq ((hreads.resolved_checked hcheck).isEmpty_eq_false)]
      refine .expression hsemi ?_ hreads hcheck
      rw [hw.first_concat ha]
      exact fun hmem => hd (List.contains_iff_mem.mpr hmem)
    · refine .inl ⟨.empty, rfl, .of_advance hu ⟨[token], hw.takes, hw.depth, ?_⟩⟩
      obtain ⟨room, rfl⟩ := Nat.exists_eq_add_of_lt hroom
      rw [hw.scopes, Nat.zero_add]
      exact .semicolon hsemi
    · exact .inr ⟨rfl, hu.trans hw⟩

/-- That there is no statement shows only if there is room for one. -/
theorem room_pos_of_statementIn {room : Nat} {s t : ParseState}
    (h : g.statementIn room s = .ok none t) : 0 < room := by
  obtain ⟨kind, u, _, h⟩ := bind_eq_ok_iff.mp h
  split at h
  · obtain ⟨tree, _, h⟩ := map_eq_ok_iff.mp h
    cases h
  · exact (reads_of_expressionIn h).1

theorem FormsRun.append {passage : Passage} {room : Nat} {s t u : ParseState} {us vs : List Tree}
    (single : passage ≠ .several) (h : FormsRun g passage room s t us)
    (h' : FormsRun g .several room t u vs) : FormsRun g .several room s u (us ++ vs) := by
  obtain ⟨xs, ht, hd, hf⟩ := h
  obtain ⟨ys, ht', hd', hf'⟩ := h'
  exact ⟨xs ++ ys, ht.trans ht', hd'.trans hd, .cons single hf hf'⟩

theorem FormsRun.nil {room : Nat} {s t : ParseState} (h : Advance g s [] t) :
    FormsRun g .several room s t [] :=
  ⟨[], h.takes, h.depth, h.scopes ▸ .nil⟩

theorem PassageRun.append {passage : Passage} {room : Nat} {s t u : ParseState}
    {kept : Option Tree → Option Tree} {r : Option Tree} {vs : List Tree}
    (single : passage ≠ .several) (none_ : kept none = none)
    (h : PassageRun g passage room s t kept r) (h' : FormsRun g .several room t u vs) :
    FormsRun g .several room s u ((kept r).toList ++ vs) := by
  rcases h with ⟨tree, rfl, hf⟩ | ⟨rfl, ht⟩
  · exact hf.append single h'
  · rw [none_]
    exact .of_advance ht h'

/-- What the parts of a block read, if they succeed. That there is no statement shows only if there
is room for one. -/
structure BodyRuns (g : Grammar) (room : Nat) (statement block : Part) : Prop where
  statements : ∀ s t r, statement.run s = .ok r t → PassageRun g .statement room s t keepStatement r
  bounded : ∀ s t, statement.run s = .ok none t → 0 < room
  blocks : ∀ s t r, block.run s = .ok r t → PassageRun g .block room s t keepBlock r

section

variable {room : Nat} {statement block : Part} {s t : ParseState}

/-- One round inside a block: a statement and a block, where there are any. -/
theorem BodyRuns.step (hb : BodyRuns g room statement block) {u : ParseState}
    {r : Option (List Tree)} {vs : List Tree} (h : bodyStep statement block s = .ok r t)
    (h' : FormsRun g .several room t u vs) : FormsRun g .several room s u (r.getD [] ++ vs) := by
  obtain ⟨r₁, w, hx, h⟩ := bind_eq_ok_iff.mp h
  obtain ⟨r₂, w', hy, h⟩ := bind_eq_ok_iff.mp h
  have hx := hb.statements _ _ _ hx
  have hy := hb.blocks _ _ _ hy
  split at h
  · next hn =>
    obtain ⟨rfl, rfl⟩ := pure_eq_ok_iff.mp h
    simp only [Bool.and_eq_true, Option.isNone_iff_eq_none] at hn
    obtain ⟨rfl, rfl⟩ := hn
    have := hx.append (by decide) rfl (hy.append (by decide) rfl h')
    simpa [keepStatement, keepBlock] using this
  · obtain ⟨rfl, rfl⟩ := pure_eq_ok_iff.mp h
    rw [Option.getD_some, List.append_assoc]
    exact hx.append (by decide) rfl (hy.append (by decide) rfl h')

/-- The last round finds no statement. -/
theorem BodyRuns.room_pos (hb : BodyRuns g room statement block)
    (h : bodyStep statement block s = .ok none t) : 0 < room := by
  obtain ⟨r, w, hx, h⟩ := bind_eq_ok_iff.mp h
  cases r with
  | none => exact hb.bounded _ _ hx
  | some tree =>
    obtain ⟨_, _, _, h⟩ := bind_eq_ok_iff.mp h
    exact absurd (pure_eq_ok_iff.mp h).1 (by simp)

theorem BodyRuns.rounds (hb : BodyRuns g room statement block) {found all : List (List Tree)}
    (h : collectFrom ParseState.remaining (bodyStep statement block)
      (bodyStep_shrinks statement block) found s = .ok all t) :
    0 < room ∧ ∃ trees, all = found.reverse ++ trees ∧
      FormsRun g .several room s t trees.flatten := by
  fun_induction collectFrom ParseState.remaining (bodyStep statement block)
    (bodyStep_shrinks statement block) found s with
  | case1 => cases h
  | case2 found s u hstep =>
    cases h
    refine ⟨hb.room_pos hstep, [], (List.append_nil _).symm, ?_⟩
    exact hb.step hstep (.nil (.refl _))
  | case3 found s trees u hstep ih =>
    obtain ⟨hroom, rest, rfl, hf⟩ := ih h
    exact ⟨hroom, trees :: rest, by simp, hb.step hstep hf⟩

/-- What is between the braces of a block, and the closing one. -/
theorem BodyRuns.inside (hb : BodyRuns g room statement block) {trees : List Tree} {symbols : Nat}
    (h : g.insideOf statement block s = .ok (trees, symbols) t) :
    0 < room ∧ ∃ tokens closing, closing.kind = .closeCurly ∧
      Takes g.vocabulary s.tokens (tokens ++ [closing]) t.tokens ∧ t.depth = s.depth - 1 ∧
        Forms g .several room s.scopes tokens trees t.scopes := by
  obtain ⟨found, u, hx, h⟩ := bind_eq_ok_iff.mp h
  obtain ⟨all, hrounds, rfl⟩ := map_eq_ok_iff.mp hx
  obtain ⟨hroom, rounds, rfl, tokens, hu, hd, hf⟩ := hb.rounds hrounds
  obtain ⟨_, w, he, h⟩ := bind_eq_ok_iff.mp h
  obtain ⟨closing, hk, hw⟩ := advance_of_discard_expectOr he
  obtain ⟨_, w', hl, h⟩ := bind_eq_ok_iff.mp h
  obtain rfl := modify_eq_ok_iff.mp hl
  obtain ⟨_, w'', hg, h⟩ := bind_eq_ok_iff.mp h
  obtain ⟨rfl, rfl⟩ := get_eq_ok_iff.mp hg
  obtain ⟨hr, rfl⟩ := pure_eq_ok_iff.mp h
  cases hr
  have hdepth : w.depth = s.depth := hw.depth.trans hd
  refine ⟨hroom, tokens, closing, hk, hu.trans hw.takes, congrArg (· - 1) hdepth, ?_⟩
  simp only [ParseState.atDepth_scopes, hw.scopes]
  exact hf

end

theorem inNewScope_eq_ok {α : Type} {action : ParseM α} {s t : ParseState} {a : α}
    (h : inNewScope action s = .ok a t) :
    ∃ u, action { s with scopes := s.scopes.push } = .ok a u ∧
      t = { u with scopes := u.scopes.pop } := by
  unfold inNewScope at h
  split at h
  · next u hu =>
    cases h
    exact ⟨u, hu, rfl⟩
  · cases h

/-- Closing the scope of a block gives back the scopes in front of it. -/
theorem Forms.pop_eq {passage : Passage} {room : Nat} {before behind : Scopes}
    {tokens : List Token} {trees : List Tree}
    (h : Forms g passage room before.push tokens trees behind) : behind.pop = before := by
  have he : behind.enclosing = before.current :: before.enclosing := h.enclosing
  unfold Scopes.pop
  rw [he]

theorem keepBlock_eq (trees : List Tree) :
    (keepBlock (some (.block trees))).toList = if trees.isEmpty then [] else [.block trees] := by
  cases trees <;> rfl

theorem blockOf_eq_ok {inside : ParseM (List Tree × Nat)} {s t : ParseState} {r : Option Tree}
    (h : g.blockOf inside s = .ok r t) :
    (∃ opening u trees symbols w, opening.kind = .openCurly ∧ Advance g s [opening] u ∧
      inside u = .ok (trees, symbols) w ∧ Advance g w [] t ∧ r = some (.block trees)) ∨
    (r = none ∧ Advance g s [] t) := by
  obtain ⟨r', u, ha, h⟩ := bind_eq_ok_iff.mp h
  rcases advance_of_accept ha with ⟨opening, rfl, hk, hu⟩ | ⟨rfl, hu, -⟩
  · obtain ⟨_, u', hn, h⟩ := bind_eq_ok_iff.mp h
    obtain ⟨⟨trees, symbols⟩, w, hin, h⟩ := bind_eq_ok_iff.mp h
    obtain ⟨_, w', hn', h⟩ := bind_eq_ok_iff.mp h
    obtain ⟨rfl, rfl⟩ := pure_eq_ok_iff.mp h
    exact .inl ⟨opening, u', trees, symbols, w, hk, hu.trans (advance_of_note hn), hin,
      advance_of_note hn', rfl⟩
  · obtain ⟨rfl, rfl⟩ := pure_eq_ok_iff.mp h
    exact .inr ⟨rfl, hu⟩

/-- A block has a scope of its own, and the enclosing ones are left as they were. -/
theorem BodyRuns.scoped {room : Nat} {statement block : Part}
    (hb : BodyRuns g room statement block) {s t : ParseState} {trees : List Tree} {symbols : Nat}
    (h : (do
      deepen
      inNewScope (g.insideOf statement block) : ParseM (List Tree × Nat)) s =
        .ok (trees, symbols) t) :
    0 < room ∧ ∃ tokens closing inner, closing.kind = .closeCurly ∧
      Takes g.vocabulary s.tokens (tokens ++ [closing]) t.tokens ∧ t.depth = s.depth ∧
        t.scopes = s.scopes ∧ Forms g .several room s.scopes.push tokens trees inner := by
  obtain ⟨_, u, hd, h⟩ := bind_eq_ok_iff.mp h
  obtain rfl := modify_eq_ok_iff.mp hd
  obtain ⟨w, hbody, rfl⟩ := inNewScope_eq_ok h
  obtain ⟨hroom, tokens, closing, hclose, hw, hdepth, hf⟩ := hb.inside hbody
  refine ⟨hroom, tokens, closing, w.scopes, hclose, hw, ?_, hf.pop_eq, hf⟩
  rw [hdepth]
  exact Nat.add_sub_cancel _ _

theorem forms_of_blockIn {room : Nat} {s t : ParseState} {r : Option Tree}
    (h : g.blockIn room s = .ok r t) : PassageRun g .block room s t keepBlock r := by
  unfold blockIn at h
  induction room generalizing s t r with
  | zero =>
    rcases blockOf_eq_ok h with ⟨_, _, _, _, _, -, -, hin, -⟩ | hnone
    · exact absurd hin exceedDepth_ne_ok
    · exact .inr hnone
  | succ room ih =>
    rcases blockOf_eq_ok h with ⟨opening, u, trees, symbols, w, hk, hu, hin, ht, rfl⟩ | hnone
    · have hb : BodyRuns g room (g.statementPart room) (g.blockPart room) :=
        ⟨fun _ _ _ => forms_of_statementIn, fun _ _ => room_pos_of_statementIn, fun _ _ _ => ih⟩
      obtain ⟨hroom, tokens, closing, inner, hclose, hw, hdepth, hscopes, hf⟩ := hb.scoped hin
      obtain ⟨room, rfl⟩ := Nat.exists_eq_add_of_lt hroom
      refine .inl ⟨_, rfl, opening :: (tokens ++ [closing]), ?_, ?_, ?_⟩
      · simpa using hu.takes.trans (hw.trans ht.takes)
      · exact ht.depth.trans (hdepth.trans hu.depth)
      · rw [ht.scopes, hscopes, hu.scopes, keepBlock_eq]
        rw [hu.scopes] at hf
        simp only [Nat.zero_add] at hf ⊢
        exact .block hk hf hclose
    · exact .inr hnone

/-! ## Programs -/

theorem forms_of_unitIn {room : Nat} {s t : ParseState} {r : Option Tree}
    (h : g.unitIn room s = .ok r t) :
    FormsRun g .several room s t r.toList := by
  obtain ⟨r', u, hs, h⟩ := bind_eq_ok_iff.mp h
  rcases forms_of_statementIn hs with ⟨tree, rfl, hf⟩ | ⟨rfl, hu⟩
  · obtain ⟨rfl, rfl⟩ := pure_eq_ok_iff.mp h
    simpa using hf.append (by decide) (.nil (.refl _))
  · obtain ⟨r'', w, hb, h⟩ := bind_eq_ok_iff.mp h
    rcases forms_of_blockIn hb with ⟨tree, rfl, hf⟩ | ⟨rfl, hw⟩
    · obtain ⟨rfl, rfl⟩ := pure_eq_ok_iff.mp h
      refine .of_advance hu ?_
      simpa using hf.append (by decide) (.nil (.refl _))
    · obtain ⟨_, _, _, h⟩ := bind_eq_ok_iff.mp h
      exact absurd h throw_ne_ok

theorem of_notingFailure {α : Type} {action : ParseM α} {s t : ParseState} {a : α}
    (h : notingFailure action s = .ok a t) : action s = .ok a t := by
  unfold notingFailure at h
  split at h
  · next ha =>
    cases h
    exact ha
  · cases h

theorem forms_of_topLevelUnit {s t : ParseState} {r : Option Tree} (hd : s.depth = 0)
    (h : g.topLevelUnit s = .ok r t) : FormsRun g .several g.maxDepth s t r.toList := by
  obtain ⟨room, u, hr, h⟩ := bind_eq_ok_iff.mp h
  obtain ⟨_, _, hg, hr⟩ := bind_eq_ok_iff.mp hr
  obtain ⟨rfl, rfl⟩ := get_eq_ok_iff.mp hg
  obtain ⟨rfl, rfl⟩ := pure_eq_ok_iff.mp hr
  rw [hd] at h
  exact forms_of_unitIn h

theorem filterMap_id_cons (unit : Option Tree) (units : List (Option Tree)) :
    (unit :: units).filterMap id = unit.toList ++ units.filterMap id := by
  cases unit <;> rfl

theorem of_programStep_none {s t : ParseState} (h : g.programStep s = .ok none t) :
    ∃ last, Advance g s [] t ∧ t.tokens.ahead = some last ∧ last.kind = .eof := by
  obtain ⟨kind, u, hk, h⟩ := bind_eq_ok_iff.mp h
  obtain ⟨last, rfl, hu, ha⟩ := advance_of_currentKind hk
  by_cases he : last.kind = .eof
  · rw [if_pos he] at h
    obtain ⟨-, rfl⟩ := pure_eq_ok_iff.mp h
    exact ⟨last, hu, ha, he⟩
  · rw [if_neg he] at h
    obtain ⟨_, _, _, h⟩ := bind_eq_ok_iff.mp h
    obtain ⟨_, _, h⟩ := map_eq_ok_iff.mp h
    cases h

/-- Any other round reads a unit. It starts to count the nesting from zero. -/
theorem forms_of_programStep {s t : ParseState} {unit : Option Tree}
    (h : g.programStep s = .ok (some unit) t) :
    ∃ tokens, Takes g.vocabulary s.tokens tokens t.tokens ∧
      Forms g .several g.maxDepth s.scopes tokens unit.toList t.scopes := by
  obtain ⟨kind, u, hk, h⟩ := bind_eq_ok_iff.mp h
  obtain ⟨first, rfl, hu, -⟩ := advance_of_currentKind hk
  by_cases he : first.kind = .eof
  · rw [if_pos he] at h
    cases (pure_eq_ok_iff.mp h).1
  · rw [if_neg he] at h
    obtain ⟨_, w, hr, h⟩ := bind_eq_ok_iff.mp h
    obtain rfl := modify_eq_ok_iff.mp hr
    obtain ⟨r, h, hr⟩ := map_eq_ok_iff.mp h
    cases hr
    obtain ⟨tokens, ht, -, hf⟩ := forms_of_topLevelUnit rfl (of_notingFailure h)
    exact ⟨tokens, hu.takes.trans ht, hu.scopes ▸ hf⟩

/-- All rounds of a program, up to the `eof`. -/
theorem forms_of_programRounds {s t : ParseState} {found all : List (Option Tree)}
    (h : collectFrom ParseState.remaining g.programStep g.programStep_shrinks found s =
      .ok all t) :
    ∃ units tokens last, all = found.reverse ++ units ∧
      Takes g.vocabulary s.tokens tokens t.tokens ∧ t.tokens.ahead = some last ∧
        last.kind = .eof ∧
        Forms g .several g.maxDepth s.scopes tokens (units.filterMap id) t.scopes := by
  fun_induction collectFrom ParseState.remaining g.programStep g.programStep_shrinks found s with
  | case1 => cases h
  | case2 found s u hstep =>
    cases h
    obtain ⟨last, hu, ha, he⟩ := of_programStep_none hstep
    refine ⟨[], [], last, (List.append_nil _).symm, hu.takes, ha, he, ?_⟩
    rw [hu.scopes]
    exact .nil
  | case3 found s unit u hstep ih =>
    obtain ⟨xs, hu, hf⟩ := forms_of_programStep hstep
    obtain ⟨units, ys, last, rfl, ht, ha, he, hf'⟩ := ih h
    refine ⟨unit :: units, xs ++ ys, last, by simp, hu.trans ht, ha, he, ?_⟩
    rw [filterMap_id_cons]
    exact hf.append hf'

/-- **An accepted program is a sequence of statements and blocks up to the `eof`.** -/
theorem forms_of_parse {source : Source} {units : List Tree} (h : g.parse source = .ok units) :
    ∃ tokens last stream scopes, last.kind = .eof ∧ stream.ahead = some last ∧
      Takes g.vocabulary (.ofSource source) tokens stream ∧
      Forms g .several g.maxDepth .root tokens units scopes := by
  unfold parse parseRun program at h
  split at h
  · next hrun =>
    cases h
    obtain ⟨found, s, hc, hx⟩ := bind_eq_ok_iff.mp hrun
    obtain ⟨_, s', hg, hx⟩ := bind_eq_ok_iff.mp hx
    obtain ⟨rfl, rfl⟩ := get_eq_ok_iff.mp hg
    obtain ⟨_, _, _, hx⟩ := bind_eq_ok_iff.mp hx
    obtain ⟨rfl, -⟩ := pure_eq_ok_iff.mp hx
    obtain ⟨all, tokens, last, rfl, ht, ha, hk, hf⟩ := forms_of_programRounds hc
    exact ⟨tokens, last, _, _, hk, ha, .note _ ht, hf⟩
  · cases h

theorem exists_of_isOk {source : Source} (h : (g.parse source).isOk = true) :
    ∃ units, g.parse source = .ok units := by
  rcases hp : g.parse source with e | units <;> rw [hp] at h
  · cases h
  · exact ⟨units, rfl⟩

end ExprLang.Grammar
