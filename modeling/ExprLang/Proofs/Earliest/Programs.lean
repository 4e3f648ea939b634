import ExprLang.Proofs.Earliest.Stalls
import ExprLang.Proofs.Parallel.Programs
import ExprLang.Proofs.Parse.Finished

/-!
# Where errors of form are found in programs

* `Derives.append`: programs one behind the other.
* `StallsAt.of_looks`: what leaves the tokens alone does not move a failure.
* `stalls_expressionIn`, `stalls_declarationIn`, `stalls_statementIn`, `stalls_blockPart`: the
  rules.
* **`stalls_program`**: where a program fails for its form, what it has taken and seen without the
  last token starts a program.
-/

namespace ExprLang

theorem Derives.program_append {xs ys : List Token} (h : Derives .program xs)
    (h' : Derives .program ys) : Derives .program (xs ++ ys) := by
  generalize hp : Part.program = part at h
  induction h with
  | nil => exact h'
  | cons first _ _ ih =>
    rw [List.append_assoc]
    exact .cons first (ih hp)
  | _ => cases hp

theorem Derives.program_of_unit {tokens : List Token} (h : Derives .unit tokens) :
    Derives .program tokens := by
  have := Derives.cons h .nil
  rwa [List.append_nil] at this

namespace Grammar

open TokenStream

variable {g : Grammar} {s t : ParseState} {room : Nat}

theorem StallsAt.of_looks {V : List Token → Prop} {e : Failure} {t' : ParseState}
    (h : StallsAt g V s e t) (ht : Consumes g t [] t') (ha : t'.tokens.ahead = t.tokens.ahead) :
    StallsAt g V s e t' := by
  intro hform
  obtain ⟨tokens, bad, ⟨taken, hu, heq⟩, hv⟩ := h hform
  have htaken := hu.trans ht
  rw [List.append_nil] at htaken
  exact ⟨tokens, bad, ⟨taken, htaken, ha ▸ heq⟩, hv⟩

theorem Consumes.of_tokens (h : t.tokens = s.tokens) : Consumes g s [] t :=
  ⟨h ▸ .refl _, List.forall_mem_nil _⟩

theorem stalls_inNewScope {α : Type} {V : List Token → Prop} {x : ParseM α}
    (h : FailsBy (StallsAt g V s) x { t with scopes := t.scopes.push }) :
    FailsBy (StallsAt g V s) (inNewScope x) t :=
  failsBy_inNewScope fun e u hr => (h e u hr).of_looks (.of_tokens rfl) rfl

theorem stalls_notingFailure {α : Type} {V : List Token → Prop} {x : ParseM α}
    (h : FailsBy (StallsAt g V s) x t) : FailsBy (StallsAt g V s) (notingFailure x) t :=
  failsBy_notingFailure fun e u hr => (h e u hr).of_looks (advance_note _ u).looks rfl

/-! ## Statements -/

theorem stalls_expressionIn (hg : g.IsStandard) (s : ParseState) :
    Stalls g (Derives .expression) (g.expressionIn room) s := by
  refine .bind ((stalls_nested hg room).2 none false s) fun r u hr => ?_
  split
  · next tree =>
    obtain ⟨tokens, hu, hd⟩ := (reads_of_bindingIn hr).reads.consumes hg.positions
    exact .bind (.map (stalls_expectOr hu ⟨[], by rwa [List.append_nil]⟩)) fun _ _ _ =>
      .map (failsBy_typed lenient_stalls)
  · exact .bind (failsBy_accept lenient_stalls) fun _ _ _ => .pure

theorem stalls_typeClause (s : ParseState) : Stalls g (Derives .typing) g.typeClause s := by
  refine .bind (failsBy_accept lenient_stalls) fun r t hr => ?_
  rcases consumes_of_accept (by decide) hr with ⟨colon, rfl, hk, ht⟩ | ⟨rfl, -⟩
  · have hcolon : Viable (Derives .typing) [colon] :=
      ⟨[closingToken .typeName], .annotated hk rfl⟩
    refine .bind (stalls_expectOr ht hcolon) fun name u he => ?_
    obtain ⟨hname, hu⟩ := advance_of_expectOr he
    split
    · exact .pure
    · exact stalls_refuse_taken (ht.trans (hu.consumes_one (by rw [hname]; decide)))
        (ahead_of_expectOr he) hcolon
  · exact .pure

/-- An initializer is an expression. Without one the semicolon is one too many. -/
theorem stalls_initializerIn (hg : g.IsStandard) {operator : Token} (s : ParseState) :
    Stalls g (Derives .expression) (g.initializerIn room operator) s := by
  refine .bind (stalls_expressionIn hg s) fun r u hr => ?_
  rcases reads_of_expressionIn hr with
    ⟨-, ⟨_, _, tree, checked, rfl, -, -, hreads, hcheck⟩ | ⟨token, rfl, hk, hu⟩ |
      ⟨rfl, hu, next, hn, -⟩⟩
  · simp only [(hreads.resolved_checked hcheck).isEmpty_eq_false, Bool.false_eq_true, if_false]
    exact .pure
  · exact stalls_refuse_taken (hu.consumes_one (by rw [hk]; decide)) (ahead_of_expressionIn hr)
      viable_expression_nil
  · exact stalls_refuse hu.looks hn viable_expression_nil

theorem stalls_declarationIn (hg : g.IsStandard) {first : Token}
    (ha : s.tokens.ahead = some first) (starts : first.kind ∈ declaratorKinds) :
    Stalls g (Derives .unit) (g.declarationIn room) s := by
  have hfirst : first.kind ≠ .eof := (by decide : ∀ k ∈ declaratorKinds, k ≠ .eof) _ starts
  refine .bind (failsBy_consume lenient_stalls) fun keyword t hc => ?_
  obtain rfl := eq_of_consume ha hc
  have ht : Consumes g s [keyword] t := (advance_of_consume hc).consumes_one hfirst
  refine .bind (stalls_expectOr ht ⟨[closingToken .identifier, closingToken .semicolon],
    .declaration starts rfl .unannotated .uninitialized rfl⟩) fun name u he => ?_
  obtain ⟨hname, hu⟩ := advance_of_expectOr he
  have hu : Consumes g s [keyword, name] u :=
    ht.trans (hu.consumes_one (by rw [hname]; decide))
  have hunit : ∀ clause value, Derives .typing clause → Derives .initializer value →
      Derives .unit (keyword :: name :: (clause ++ (value ++ [closingToken .semicolon]))) :=
    fun _ _ hc hv => .declaration starts hname hc hv rfl
  refine .bind (stalls_within hu (stalls_typeClause u) fun clause hd =>
    ⟨[closingToken .semicolon], hunit clause [] hd .uninitialized⟩)
      fun declared w hc => .bind .modify fun _ x hn => .bind (failsBy_declare lenient_stalls)
        fun _ y hd => ?_
  obtain ⟨clause, hw, hclause⟩ := clause_of_typeClause hc
  have hx := (hu.trans (hw.consumes hclause.derives.ne_eof)).trans (advance_of_note hn).looks
  rw [List.append_nil] at hx
  obtain ⟨scopes, -, rfl⟩ := declare_eq_ok hd
  have hy : Consumes g s (keyword :: name :: clause) { x with scopes := scopes } :=
    ⟨hx.takes, hx.ne_eof⟩
  refine .bind (failsBy_accept lenient_stalls) fun r z hr => ?_
  rcases consumes_of_accept (by decide) hr with ⟨operator, rfl, hk, hz⟩ | ⟨rfl, hz, -⟩
  · refine .bind (stalls_within (hy.trans hz) (stalls_initializerIn hg z) fun tokens hd =>
      ⟨[closingToken .semicolon], ?_⟩) fun value p _ => ?_
    · have := hunit clause (operator :: tokens) hclause.derives (.initialized hk hd)
      simpa using this
    · rcases hunify : unify declared value.type? operator.line with d | type
      · exact .throw (lenient_stalls.semantic _ p (category_of_unify hunify))
      · exact .bind .modify fun _ _ _ => .pure
  · cases declared with
    | none => exact failsBy_refuse (lenient_stalls.semantic _ _ rfl)
    | some type =>
      refine .bind (.map (stalls_expectOr (hy.trans hz) ⟨[closingToken .semicolon], ?_⟩))
        fun _ _ _ => .pure
      have := hunit clause [] hclause.derives .uninitialized
      simpa using this

theorem stalls_statementIn (hg : g.IsStandard) (s : ParseState) :
    Stalls g (Derives .unit) (g.statementIn room) s := by
  refine .bind (failsBy_currentKind lenient_stalls) fun kind t hk => ?_
  obtain ⟨first, rfl, ht, ha⟩ := advance_of_currentKind hk
  split
  · next hd =>
    have starts := hg.mem_declarators.mp (List.contains_iff_mem.mp hd)
    exact .map (stalls_behind ht.looks (stalls_declarationIn hg ha starts) fun _ hd => hd)
  · exact stalls_within ht.looks (stalls_expressionIn hg t) fun tokens hd =>
      ⟨[closingToken .semicolon], .expression hd rfl⟩

/-! ## Blocks -/

theorem PassageRun.consumes (hg : g.IsStandard) {passage : Passage} {r : Option Tree}
    {kept : Option Tree → Option Tree} (single : passage ≠ .several)
    (h : PassageRun g passage room s t kept r) :
    ∃ tokens, Consumes g s tokens t ∧ Derives .program tokens := by
  rcases h with ⟨_, -, h⟩ | ⟨-, h⟩
  · obtain ⟨tokens, ht, hd⟩ := h.consumes hg
    rw [if_neg single] at hd
    exact ⟨tokens, ht, hd.program_of_unit⟩
  · exact ⟨[], h.looks, .nil⟩

theorem stalls_blockOf {inside : ParseM (List Tree × Nat)}
    (h : ∀ opening u, opening.kind = .openCurly → Consumes g s [opening] u →
      FailsBy (StallsAt g (Viable (Derives .unit)) s) inside u) :
    Stalls g (Derives .unit) (g.blockOf inside) s := by
  refine .bind (failsBy_accept lenient_stalls) fun r u hr => ?_
  rcases consumes_of_accept (by decide) hr with ⟨opening, rfl, hk, hu⟩ | ⟨rfl, -⟩
  · refine .bind .modify fun _ w hn => ?_
    have hw := hu.trans (advance_of_note hn).looks
    exact .bind (h opening w hk hw) fun _ _ _ => .bind .modify fun _ _ _ => .pure
  · exact .pure

theorem FormsRun.consumes_several (hg : g.IsStandard) {trees : List Tree}
    (h : FormsRun g .several room s t trees) :
    ∃ tokens, Consumes g s tokens t ∧ Derives .program tokens := h.consumes hg

/-- Behind an opening brace and what is in a block there are a unit and the closing brace still to
come. -/
theorem stalls_insideOf (hg : g.IsStandard) {opening : Token} {statement block : Part}
    (hopen : opening.kind = .openCurly) (hb : BodyRuns g room statement block)
    (hstatement : ∀ t, Stalls g (Derives .unit) statement.run t)
    (hblock : ∀ t, Stalls g (Derives .unit) block.run t) (h : Consumes g s [opening] t) :
    FailsBy (StallsAt g (Viable (Derives .unit)) s) (g.insideOf statement block) t := by
  have hunit : ∀ xs, Derives .program xs →
      Derives .unit (opening :: (xs ++ [closingToken .closeCurly])) :=
    fun _ hd => .block hopen hd rfl
  have hnested : ∀ xs, Derives .program xs → ∀ tokens, Derives .unit tokens →
      ∃ ys, Derives .unit ([opening] ++ xs ++ (tokens ++ ys)) := by
    intro xs hd tokens hd'
    refine ⟨[closingToken .closeCurly], ?_⟩
    rw [List.append_assoc, ← List.append_assoc xs]
    exact hunit _ (hd.program_append hd'.program_of_unit)
  refine .bind (.map (FailsBy.collect
    (P := fun u => ∃ xs, Consumes g t xs u ∧ Derives .program xs) ⟨[], .refl t, .nil⟩ ?_ ?_))
    fun trees u hu => .bind (.map ?_) fun _ _ _ => .bind .modify fun _ _ _ => .get .pure
  · rintro u ⟨xs, hu, hd⟩
    refine .bind (stalls_within (h.trans hu) (hstatement u) (hnested xs hd)) fun r w hr =>
      .bind ?_ fun r' x _ => ?_
    · obtain ⟨ys, hw, hd'⟩ := (hb.statements _ _ _ hr).consumes hg (by decide)
      have hw := h.trans (hu.trans hw)
      exact stalls_within hw (hblock w) (hnested _ (hd.program_append hd'))
    · split <;> exact .pure
  · rintro u found w ⟨xs, hu, hd⟩ hr
    obtain ⟨ys, hw, hd'⟩ := (hb.step hr (.nil (.refl _))).consumes_several hg
    exact ⟨xs ++ ys, hu.trans hw, hd.program_append hd'⟩
  · obtain ⟨all, hall, -⟩ := map_eq_ok_iff.mp hu
    obtain ⟨-, _, -, hf⟩ := hb.rounds hall
    obtain ⟨xs, hu, hd⟩ := hf.consumes_several hg
    exact stalls_expectOr (h.trans hu) ⟨_, hunit xs hd⟩

theorem stalls_blockPart (hg : g.IsStandard) (room : Nat) (s : ParseState) :
    Stalls g (Derives .unit) (g.blockPart room).run s := by
  induction room generalizing s with
  | zero => exact stalls_blockOf fun _ _ _ _ => stalls_exceedDepth
  | succ room ih =>
    refine stalls_blockOf fun opening u hk hu => .bind .modify fun _ w hd =>
      stalls_inNewScope ?_
    obtain rfl := modify_eq_ok_iff.mp hd
    have hb : BodyRuns g room (g.statementPart room) (g.blockPart room) :=
      ⟨fun _ _ _ => forms_of_statementIn, fun _ _ => room_pos_of_statementIn,
        fun _ _ _ => forms_of_blockIn⟩
    exact stalls_insideOf hg hk hb (stalls_statementIn hg) ih ⟨hu.takes, hu.ne_eof⟩

/-! ## Programs -/

theorem stalls_unitIn (hg : g.IsStandard) (s : ParseState) :
    Stalls g (Derives .unit) (g.unitIn room) s := by
  refine .bind (stalls_statementIn hg s) fun r t hr => ?_
  rcases forms_of_statementIn hr with ⟨_, rfl, -⟩ | ⟨rfl, ht⟩
  · exact .pure
  · refine .bind (stalls_behind ht.looks (stalls_blockPart hg room t) fun _ hd => hd)
      fun r u hr => ?_
    rcases forms_of_blockIn hr with ⟨_, rfl, -⟩ | ⟨rfl, hu⟩
    · exact .pure
    · refine .bind (failsBy_lookahead lenient_stalls) fun token w hl => ?_
      obtain ⟨hw, ha⟩ := advance_of_lookahead hl
      exact stalls_refuse (ht.trans (hu.trans hw)).looks ha
        ⟨[closingToken .semicolon], .semicolon rfl⟩

/-- **Where a program fails for its form**, what it has taken and seen without the last token starts
a program. -/
theorem stalls_program (hg : g.IsStandard) (s : ParseState) :
    Stalls g (Derives .program) g.program s := by
  refine .bind (FailsBy.collect
    (P := fun t => ∃ xs, Consumes g s xs t ∧ Derives .program xs) ⟨[], .refl s, .nil⟩ ?_ ?_)
    fun _ _ _ => .get (.bind .modify fun _ _ _ => .pure)
  · rintro t ⟨xs, ht, hd⟩
    refine .bind (failsBy_currentKind lenient_stalls) fun kind u hk => ?_
    obtain ⟨first, -, hu, -⟩ := advance_of_currentKind hk
    have hu := ht.trans hu.looks
    rw [List.append_nil] at hu
    split
    · exact .pure
    · rw [Twin.reset_topLevelUnit]
      refine .bind .modify fun _ w hw => .map (stalls_notingFailure ?_)
      obtain rfl := modify_eq_ok_iff.mp hw
      exact stalls_behind ⟨hu.takes, hu.ne_eof⟩ (stalls_unitIn hg _) fun _ hd' =>
        hd.program_append hd'.program_of_unit
  · rintro t unit u ⟨xs, ht, hd⟩ hr
    obtain ⟨ys, hu, hf⟩ := forms_of_programStep hr
    have hd' : Derives .program ys := hf.derives hg
    exact ⟨xs ++ ys, ht.trans ⟨hu, hd'.ne_eof⟩, hd.program_append hd'⟩

end Grammar

end ExprLang
