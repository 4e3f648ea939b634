import ExprLang.Proofs.Language.Kinds
import ExprLang.Proofs.Parallel.Programs
import ExprLang.Proofs.Replay.Steps

/-!
# Parses can be replayed

In the standard language every rule depends on the tokens that it pulls only. A token is taken after
a look at it, and no rule takes an `eof`.

* `local_nested`, `local_statementIn`, `local_blockPart`, `local_unitIn`: the rules.
* **`local_programStep`**, **`local_program`**: a round of a program, and a whole program.
-/

namespace ExprLang.Grammar

variable {g : Grammar} {s : ParseState}

/-! ## Kinds that are taken -/

namespace StandardPositions

variable (hg : g.StandardPositions)

include hg

theorem ne_eof_of_rule {k : Kind} {rule : OperandRule} (h : g.operands.get? k = some rule) :
    k ≠ .eof := by
  rintro rfl
  rw [hg.rule_eq] at h
  cases h

theorem ne_eof_of_isBefore {k : Kind} (h : g.vocabulary.isBefore k = true) : k ≠ .eof :=
  (by decide : ∀ k ∈ signKinds, k ≠ .eof) _ (hg.mem_signKinds h)

theorem ne_eof_of_continues {inParen : Bool} {token : Token} (h : g.Continues inParen token) :
    token.kind ≠ .eof :=
  (by decide : ∀ k ∈ infixKinds, k ≠ .eof) _ (hg.mem_infixKinds h)

end StandardPositions

/-! ## Operands -/

theorem local_literal {token : Token} (ha : s.tokens.ahead = some token) (hk : token.kind ≠ .eof) :
    Local g g.literal s := by
  refine .bind (local_consume ha hk) fun found t _ => ?_
  split
  · exact .pure
  · exact .refuse

theorem local_symbol {token : Token} (ha : s.tokens.ahead = some token) (hk : token.kind ≠ .eof) :
    Local g g.symbol s := by
  refine .bind (local_consume ha hk) fun found t _ => .get (fun s' hs => by rw [hs.scopes]) ?_
  split
  · exact .pure
  · exact .refuse

theorem local_groupOf {content : ParseM (Option Tree)} (h : ∀ s, Local g content s) {token : Token}
    (ha : s.tokens.ahead = some token) (hk : token.kind ≠ .eof) :
    Local g (g.groupOf content) s := by
  refine .bind (local_consume ha hk) fun opening t _ => .bind (h t) fun r u _ => ?_
  split
  · exact .bind (local_discard_expectOr (by decide) _) fun _ _ _ => .bind .leave fun _ _ _ => .pure
  · exact .refuse

theorem local_trailedOf (hg : g.StandardPositions) {content : ParseM (Option Tree)}
    (h : ∀ s, Local g content s) : Local g (g.trailedOf (g.groupOf content)) s := by
  refine .bind (.bind local_currentKind fun kind t hr => ?_) fun r t _ => ?_
  · obtain ⟨token, rfl, -, ha⟩ := advance_of_currentKind hr
    rcases rule : g.operands.get? token.kind with _ | _ | _ | _
    · exact .pure
    · exact .map (local_literal ha (hg.ne_eof_of_rule rule))
    · exact .map (local_symbol ha (hg.ne_eof_of_rule rule))
    · exact .map (local_groupOf h ha (hg.ne_eof_of_rule rule))
  · split
    · refine .bind local_currentKind fun kind u _ => ?_
      rw [if_neg (by rw [hg.isAfter]; decide)]
      exact .pure
    · exact .pure

/-! ## Operators between operands -/

theorem local_checkTarget {operator : Token} {target : Tree} :
    Local g (checkTarget operator target) s := by
  unfold checkTarget
  split
  · unfold checkAssignable
    split
    · refine .get (fun s' hs => by rw [hs.scopes]) ?_
      split
      · split
        · exact .pure
        · exact .refuse
      · exact .refuse
    · exact .refuse
  · exact .pure

theorem local_climb (hg : g.StandardPositions) {rightOperand : Token → ParseM (Option Tree)}
    (h : ∀ operator s, Local g (rightOperand operator) s) (previous : Option Token) (inParen : Bool)
    (left : Tree) (height : Nat) (s : ParseState) :
    Local g (g.climb rightOperand previous inParen left height) s := by
  rw [climb]
  refine .bind .beginRound fun _ r _ => .bind local_lookahead fun token t hr =>
    .get (fun s' hs => by rw [hs.previous]) ?_
  obtain ⟨-, ha⟩ := advance_of_lookahead hr
  rcases hafter : g.afterOperand inParen t.previous token with cause | _ | _
  · exact .refuse
  · exact .pure
  · refine .bind local_checkTarget fun _ u hc => ?_
    obtain ⟨rfl, -⟩ := fitsTarget_of_checkTarget hc
    split
    · exact .pure
    · refine .bind (local_consume ha (hg.ne_eof_of_continues ⟨_, hafter⟩)) fun operator w _ =>
        .bind (h operator w) fun r x _ => ?_
      split
      · exact .refuse
      · split
        · exact local_exceedHeight
        · exact local_climb hg h previous inParen _ _ _
termination_by g.maxDepth - height

/-! ## Nested rules -/

theorem local_nested (hg : g.StandardPositions) (room : Nat) :
    (∀ s, Local g (g.signedIn room) s) ∧
      ∀ previous inParen s, Local g (g.bindingIn room previous inParen) s := by
  induction room with
  | zero =>
    refine ⟨fun s => ?_, fun _ _ _ => local_exceedDepth⟩
    rw [signedIn]
    refine .bind local_currentKind fun kind t hr => ?_
    obtain ⟨token, rfl, -, ha⟩ := advance_of_currentKind hr
    split
    · next hb =>
      exact .bind (.map (local_consume ha (hg.ne_eof_of_isBefore hb))) fun _ _ _ =>
        local_exceedDepth
    · exact local_trailedOf hg fun _ => local_exceedDepth
  | succ room ih =>
    refine ⟨fun s => ?_, fun previous inParen s => ?_⟩
    · rw [signedIn]
      refine .bind local_currentKind fun kind t hr => ?_
      obtain ⟨token, rfl, -, ha⟩ := advance_of_currentKind hr
      split
      · next hb =>
        refine .bind (local_consume ha (hg.ne_eof_of_isBefore hb)) fun operator u _ =>
          .bind .deepen fun _ w _ => .bind (ih.1 w) fun r x _ => .bind .leave fun _ _ _ => ?_
        split
        · exact .pure
        · exact .refuse
      · exact local_trailedOf hg fun _ => .bind .deepen fun _ _ _ => ih.2 _ _ _
    · unfold bindingIn
      refine .bind .deepen fun _ t _ => .bind (ih.1 t) fun r u _ => ?_
      split
      · exact .bind (local_climb hg (fun _ => ih.2 _ _) _ _ _ _ _) fun _ _ _ =>
          .bind .leave fun _ _ _ => .pure
      · split
        · exact .bind local_currentLine fun _ _ _ => .refuse
        · refine .bind local_lookahead fun token w _ => ?_
          split
          · exact .refuse
          · exact .bind .leave fun _ _ _ => .pure

/-! ## Statements -/

theorem local_typed {tree : Tree} : Local g (g.typed tree) s := by
  unfold typed
  split
  · exact .pure
  · refine .bind ?_ fun _ _ _ => .throw
    unfold noteFault
    split
    · exact .note
    · exact .pure

theorem local_expressionIn (hg : g.StandardPositions) (room : Nat) (s : ParseState) :
    Local g (g.expressionIn room) s := by
  refine .bind ((local_nested hg room).2 none false s) fun r t _ => ?_
  split
  · exact .bind (local_discard_expectOr (by decide) _) fun _ _ _ => .map local_typed
  · exact .bind (local_accept (by decide)) fun _ _ _ => .pure

theorem local_typeClause : Local g g.typeClause s := by
  refine .bind (local_accept (by decide)) fun r t _ => ?_
  split
  · exact .pure
  · refine .bind (local_expectOr (by decide) _) fun name u _ => ?_
    split
    · exact .pure
    · exact .refuse

theorem local_declare {symbol : Symbol} {line : UInt32} : Local g (declare symbol line) s := by
  refine .get (fun s' hs => by rw [hs.scopes]) ?_
  split
  · next scopes _ =>
    exact .modify (.refl s) fun _ hs => ⟨⟨hs.ahead, rfl, hs.depth, hs.previous⟩, rfl⟩
  · exact .throw

theorem local_resolve {id : String} {type : DataType} : Local g (resolve id type) s :=
  .modify (.refl s) fun _ hs => ⟨⟨hs.ahead, hs.scopes ▸ rfl, hs.depth, hs.previous⟩, rfl⟩

theorem local_initializerIn (hg : g.StandardPositions) (room : Nat) (operator : Token) :
    Local g (g.initializerIn room operator) s := by
  refine .bind (local_expressionIn hg room s) fun r t _ => ?_
  split
  · split
    · exact .refuse
    · exact .pure
  · exact .refuse

theorem local_declarationIn (hg : g.StandardPositions) (room : Nat) {token : Token}
    (ha : s.tokens.ahead = some token) (hk : token.kind ≠ .eof) :
    Local g (g.declarationIn room) s := by
  refine .bind (local_consume ha hk) fun keyword t _ =>
    .bind (local_expectOr (by decide) _) fun name u _ => .bind local_typeClause fun declared w _ =>
      .bind .note fun _ x _ => .bind local_declare fun _ y _ =>
        .bind (local_accept (by decide)) fun r z _ => ?_
  split
  · split
    · exact .refuse
    · exact .bind (local_discard_expectOr (by decide) _) fun _ _ _ => .pure
  · refine .bind (local_initializerIn hg room _) fun value p _ => ?_
    split
    · exact .bind local_resolve fun _ _ _ => .pure
    · exact .throw

theorem local_statementIn (hg : g.IsStandard) (room : Nat) (s : ParseState) :
    Local g (g.statementIn room) s := by
  refine .bind local_currentKind fun kind t hr => ?_
  obtain ⟨token, rfl, -, ha⟩ := advance_of_currentKind hr
  split
  · next hd =>
    have hstarts := hg.mem_declarators.mp (List.contains_iff_mem.mp hd)
    have hk := (by decide : ∀ k ∈ declaratorKinds, k ≠ .eof) _ hstarts
    exact .map (local_declarationIn hg.positions room ha hk)
  · exact local_expressionIn hg.positions room t

/-! ## Blocks and units -/

theorem local_bodyStep {statement block : Part} (hs : ∀ s, Local g statement.run s)
    (hb : ∀ s, Local g block.run s) (s : ParseState) : Local g (bodyStep statement block) s := by
  refine .bind (hs s) fun r t _ => .bind (hb t) fun r' u _ => ?_
  split
  · exact .pure
  · exact .pure

theorem local_insideOf {statement block : Part} (hs : ∀ s, Local g statement.run s)
    (hb : ∀ s, Local g block.run s) (s : ParseState) : Local g (g.insideOf statement block) s := by
  refine .bind (.map (.collect (local_bodyStep hs hb))) fun _ t _ =>
    .bind (local_discard_expectOr (by decide) _) fun _ u _ => .bind .leave fun _ w _ =>
      .get (fun s' hs => by rw [hs.scopes]) .pure

theorem local_blockOf {inside : ParseM (List Tree × Nat)} (h : ∀ s, Local g inside s) :
    Local g (g.blockOf inside) s := by
  refine .bind (local_accept (by decide)) fun r t _ => ?_
  split
  · exact .pure
  · exact .bind .note fun _ u _ => .bind (h u) fun _ _ _ => .bind .note fun _ _ _ => .pure

theorem local_blockPart (hg : g.IsStandard) (room : Nat) (s : ParseState) :
    Local g (g.blockPart room).run s := by
  induction room generalizing s with
  | zero => exact local_blockOf fun _ => local_exceedDepth
  | succ room ih =>
    exact local_blockOf fun _ => .bind .deepen fun _ _ _ =>
      .inNewScope (local_insideOf (local_statementIn hg room) ih)

theorem local_unitIn (hg : g.IsStandard) (room : Nat) (s : ParseState) :
    Local g (g.unitIn room) s := by
  refine .bind (local_statementIn hg room s) fun r t _ => ?_
  split
  · exact .pure
  · refine .bind (local_blockPart hg room t) fun r u _ => ?_
    split
    · exact .pure
    · exact .bind local_lookahead fun _ _ _ => .refuse

/-! ## Programs -/

/-- **A round of a program depends on the tokens it pulls only.** -/
theorem local_programStep (hg : g.IsStandard) (s : ParseState) : Local g g.programStep s := by
  refine .bind local_currentKind fun kind t _ => ?_
  split
  · exact .pure
  · rw [Twin.reset_topLevelUnit]
    exact .bind .resetDepth fun _ u _ => .map (.notingFailure (local_unitIn hg g.maxDepth u))

/-- **A program depends on the tokens it pulls only.** -/
theorem local_program (hg : g.IsStandard) (s : ParseState) : Local g g.program s :=
  .bind (.collect (local_programStep hg)) fun _ _ _ => .get (fun s' hs => by rw [hs.scopes])
    (.bind .note fun _ _ _ => .pure)

end ExprLang.Grammar
