import ExprLang.Grammar.Program
import ExprLang.Proofs.Parallel.Expressions
import ExprLang.Proofs.Parse.Passage

/-!
# Parses side by side: statements, blocks and programs

* `Twin.typed`, `Twin.declarationIn`, `Twin.blockPart`, …: every rule goes together with itself.
* **`Twin.parse_matching`**: so do whole parses. They find units that are alike, or fail alike.
-/

namespace ExprLang.Grammar

/-! ## Statements -/

namespace Twin

variable {g g' : Grammar} (T : Twin g g') {α β : Type} {Q : α → β → Prop}

theorem noteFault {d e : Diagnostic} (h : d.cause = e.cause) :
    T.Agree (noteFault d) (noteFault e) fun _ _ => True := by
  unfold Grammar.noteFault
  rw [h]
  cases e.cause.checkEvent? with
  | none => exact .pure trivial
  | some event => exact T.note _ _

theorem typed (ht : g.typing = g'.typing) {x y : Tree} (h : x.Alike T.lines y) :
    T.Agree (g.typed x) (g'.typed y) (Tree.Alike T.lines) := by
  unfold Grammar.typed
  rw [ht]
  match x.check g'.typing, y.check g'.typing, h.check g'.typing with
  | _, _, .done tree => exact .pure tree
  | _, _, .stopped _ same =>
    exact .bind (T.noteFault same.cause) fun _ _ _ => .throw (.refused same)

theorem expressionIn (ht : g.typing = g'.typing) {room room' : Nat} (h : T.Rooms room room') :
    T.Agree (g.expressionIn room) (g'.expressionIn room')
      (Option.Rel (Tree.OrEmpty (Tree.Alike T.lines))) := by
  refine .bind ((T.nested h).binding false .none) fun r r' hr => ?_
  cases hr with
  | some same =>
    exact .bind (.discard (T.expectOr _ _)) fun _ _ _ =>
      .map (T.typed ht same) fun _ _ h => .some (.tree h)
  | none =>
    refine .bind (T.accept _) fun r r' hr => ?_
    cases hr with
    | none => exact .pure .none
    | some => exact .pure (.some .empty)

theorem typeClause : T.Agree g.typeClause g'.typeClause Eq := by
  refine .bind (T.accept _) fun r r' hr => ?_
  cases hr with
  | none => exact .pure rfl
  | some =>
    refine .bind (T.expectOr _ _) fun a b h => ?_
    rw [T.vocabulary, h.value]
    cases g'.vocabulary.typeNamed? b.value with
    | none => exact T.refuse _ h.line
    | some type => exact .pure rfl

theorem declare (symbol : Symbol) {l m : UInt32} (h : T.lines l m) :
    T.Agree (declare symbol l) (declare symbol m) fun _ _ => True := by
  refine .bind .get fun s t hst => ?_
  unfold Scopes.declare
  rw [hst.scopes]
  cases t.scopes.declare? symbol with
  | none => exact .throw (.refused ⟨rfl, h⟩)
  | some scopes => exact T.modify fun _ _ hst => ⟨hst.tokens, rfl, hst.previous⟩

theorem resolve (id : String) (type : DataType) :
    T.Agree (resolve id type) (resolve id type) fun _ _ => True :=
  T.modify fun _ _ hst => ⟨hst.tokens, hst.scopes ▸ rfl, hst.previous⟩

theorem initializerIn (ht : g.typing = g'.typing) {room room' : Nat} (h : T.Rooms room room')
    {a b : Token} (hab : a.Alike T.lines b) :
    T.Agree (g.initializerIn room a) (g'.initializerIn room' b) (Tree.Alike T.lines) := by
  refine .bind (T.expressionIn ht h) fun r r' hr => ?_
  cases hr with
  | none => exact T.refuse _ hab.line
  | some found =>
    cases found with
    | empty => exact T.refuse _ hab.line
    | tree same =>
      simp only [same.isEmpty_eq]
      exact .pure same

theorem declarationIn (ht : g.typing = g'.typing) {room room' : Nat} (h : T.Rooms room room') :
    T.Agree (g.declarationIn room) (g'.declarationIn room')
      fun x y => Tree.UnitsAlike T.lines [x] [y] := by
  refine .bind T.consume fun keyword keyword' hk => .bind (T.expectOr _ _) fun name name' hname =>
    .bind T.typeClause ?_
  rintro declared _ rfl
  rw [hk.kind, hname.value]
  refine .bind (T.note _ _) fun _ _ _ => .bind (T.declare _ hname.line) fun _ _ _ =>
    .bind (T.accept _) fun r r' hr => ?_
  cases hr with
  | none =>
    refine .ite Iff.rfl (fun _ => T.refuse _ hname.line) fun _ => ?_
    exact .bind (.discard (T.expectOr _ _)) fun _ _ _ => .pure (.bare hname .nil)
  | some hop =>
    refine .bind (T.initializerIn ht h hop) fun x y same => ?_
    rw [same.type?_eq]
    match unify declared y.type? _, unify declared y.type? _,
      sameOutcome_unify declared y.type? hop.line with
    | _, _, .ok type =>
      exact .bind (T.resolve _ _) fun _ _ _ => .pure (.initialized hop hname same .nil)
    | _, _, .error same => exact .throw (.refused same)

theorem statementIn (ht : g.typing = g'.typing) {room room' : Nat} (h : T.Rooms room room') :
    T.Agree (g.statementIn room) (g'.statementIn room')
      (Option.Rel (Tree.OrEmpty fun x y => Tree.UnitsAlike T.lines [x] [y])) := by
  refine .bind T.currentKind ?_
  rintro kind _ rfl
  rw [T.declarators]
  refine .ite Iff.rfl (fun _ => ?_) fun _ => ?_
  · exact .map (T.declarationIn ht h) fun _ _ h => .some (.tree h)
  · refine .mono (T.expressionIn ht h) fun r r' hr => ?_
    cases hr with
    | none => exact .none
    | some found =>
      cases found with
      | empty => exact .some .empty
      | tree same => exact .some (.tree (.expression same .nil))

/-! ## Blocks -/

theorem inNewScope {x : ParseM α} {y : ParseM β} (h : T.Agree x y Q) :
    T.Agree (inNewScope x) (inNewScope y) Q := by
  intro s t hst
  unfold Grammar.inNewScope
  match x { s with scopes := s.scopes.push }, y { t with scopes := t.scopes.push },
    h { s with scopes := s.scopes.push } { t with scopes := t.scopes.push }
      ⟨hst.tokens, hst.scopes ▸ rfl, hst.previous⟩ with
  | _, _, .ok values behind =>
    exact .ok values ⟨behind.tokens, congrArg Scopes.pop behind.scopes, behind.previous⟩
  | _, _, .failed same => exact .failed same
  | _, _, .cut early => exact .cut early

theorem keepStatement {r r' : Option Tree}
    (h : Option.Rel (Tree.OrEmpty fun x y => Tree.UnitsAlike T.lines [x] [y]) r r') :
    Tree.UnitsAlike T.lines (keepStatement r).toList (keepStatement r').toList := by
  cases h with
  | none => exact .nil
  | some found =>
    cases found with
    | empty => exact .nil
    | tree same =>
      obtain ⟨hx, hy⟩ := same.isEmpty_head
      rw [keepStatement_eq hx, keepStatement_eq hy]
      exact same

theorem keepBlock {r r' : Option Tree} (h : Option.Rel (Tree.BlockAlike T.lines) r r') :
    Tree.UnitsAlike T.lines (keepBlock r).toList (keepBlock r').toList := by
  cases h with
  | none => exact .nil
  | some found =>
    obtain ⟨inside⟩ := found
    rw [keepBlock_eq, keepBlock_eq, inside.isEmpty_eq]
    split
    · exact .nil
    · exact .block inside .nil

theorem bodyStep {statement block statement' block' : Part}
    (hs : T.Agree statement.run statement'.run
      (Option.Rel (Tree.OrEmpty fun x y => Tree.UnitsAlike T.lines [x] [y])))
    (hb : T.Agree block.run block'.run (Option.Rel (Tree.BlockAlike T.lines))) :
    T.Agree (bodyStep statement block) (bodyStep statement' block')
      (Option.Rel (Tree.UnitsAlike T.lines)) := by
  refine .bind hs fun s s' hs => .bind hb fun b b' hb => ?_
  have hkept := (T.keepStatement hs).append (T.keepBlock hb)
  refine .ite ?_ (fun _ => .pure .none) fun _ => .pure (.some hkept)
  cases hs <;> cases hb <;> rfl

theorem bodyOf {statement block statement' block' : Part}
    (hs : T.Agree statement.run statement'.run
      (Option.Rel (Tree.OrEmpty fun x y => Tree.UnitsAlike T.lines [x] [y])))
    (hb : T.Agree block.run block'.run (Option.Rel (Tree.BlockAlike T.lines))) :
    T.Agree (bodyOf statement block) (bodyOf statement' block') (Tree.UnitsAlike T.lines) :=
  .map (.collect (T.bodyStep hs hb)) fun _ _ h => .flatten h

theorem insideOf {statement block statement' block' : Part}
    (hs : T.Agree statement.run statement'.run
      (Option.Rel (Tree.OrEmpty fun x y => Tree.UnitsAlike T.lines [x] [y])))
    (hb : T.Agree block.run block'.run (Option.Rel (Tree.BlockAlike T.lines))) :
    T.Agree (g.insideOf statement block) (g'.insideOf statement' block')
      fun p q => Tree.UnitsAlike T.lines p.1 q.1 :=
  .bind (T.bodyOf hs hb) fun _ _ h => .bind (.discard (T.expectOr _ _)) fun _ _ _ =>
    .bind T.leave fun _ _ _ => .bind .get fun _ _ _ => .pure h

theorem blockOf {inside inside' : ParseM (List Tree × Nat)}
    (h : T.Agree inside inside' fun p q => Tree.UnitsAlike T.lines p.1 q.1) :
    T.Agree (g.blockOf inside) (g'.blockOf inside') (Option.Rel (Tree.BlockAlike T.lines)) := by
  refine .bind (T.accept _) fun r r' hr => ?_
  cases hr with
  | none => exact .pure .none
  | some =>
    refine .bind (T.note _ _) fun _ _ _ => .bind h fun (_, _) (_, _) h => ?_
    exact .bind (T.note _ _) fun _ _ _ => .pure (.some (.block h))

end Twin

theorem looks_statementIn (g : Grammar) (room : Nat) : Looks g (g.statementIn room) :=
  .bind .currentKind _

theorem looks_insideOf (g : Grammar) {statement : Part} (h : Looks g statement.run) (block : Part) :
    Looks g (g.insideOf statement block) :=
  .bind (.map (.collect (.bind h _)) _) _

namespace Twin

variable {g g' : Grammar} (T : Twin g g') {α β : Type} {Q : α → β → Prop}

/-- Blocks side by side, by induction on the room of the first parse. -/
theorem blockPart (ht : g.typing = g'.typing) {room room' : Nat} (h : T.Rooms room room') :
    T.Agree (g.blockPart room).run (g'.blockPart room').run
      (Option.Rel (Tree.BlockAlike T.lines)) := by
  induction room generalizing room' with
  | zero =>
    cases room' with
    | zero => exact T.blockOf T.exceedDepth
    | succ room' =>
      obtain - | ⟨hcut, -⟩ := h
      exact T.blockOf (T.exceedDepth_cut hcut
        (.deepen (.inNewScope (g'.looks_insideOf (g'.looks_statementIn _) _))))
  | succ room ih =>
    cases room' with
    | zero => nomatch h
    | succ room' =>
      exact T.blockOf (.bind T.deepen fun _ _ _ =>
        T.inNewScope (T.insideOf (T.statementIn ht h.pred) (ih h.pred)))

/-! ## Units and programs -/

theorem unitIn (ht : g.typing = g'.typing) {room room' : Nat} (h : T.Rooms room room') :
    T.Agree (g.unitIn room) (g'.unitIn room')
      fun r r' => Tree.UnitsAlike T.lines r.toList r'.toList := by
  refine .bind (T.statementIn ht h) fun r r' hr => ?_
  cases hr with
  | some found => exact .pure (T.keepStatement (.some found))
  | none =>
    refine .bind (T.blockPart ht h) fun r r' hr => ?_
    cases hr with
    | some found => exact .pure (T.keepBlock (.some found))
    | none =>
      refine .bind T.lookahead fun a b hab => ?_
      rw [hab.value]
      exact T.refuse _ hab.line

theorem notingFailure {x : ParseM α} {y : ParseM β} (h : T.Agree x y Q) :
    T.Agree (notingFailure x) (notingFailure y) Q := by
  intro s t hst
  unfold Grammar.notingFailure
  match x s, y t, h s t hst with
  | _, _, .ok values behind => exact .ok values behind
  | _, _, .failed same => exact .failed same
  | _, _, .cut early => exact .cut early

/-- The nesting of every unit is counted from zero. -/
theorem reset_topLevelUnit (g : Grammar) :
    (do Grammar.resetDepth; some <$> Grammar.notingFailure g.topLevelUnit) =
      (do Grammar.resetDepth; some <$> Grammar.notingFailure (g.unitIn g.maxDepth)) := by
  funext s
  have h : g.topLevelUnit (s.atDepth 0) = g.unitIn g.maxDepth (s.atDepth 0) := rfl
  change EStateM.map some (Grammar.notingFailure g.topLevelUnit) (s.atDepth 0) =
    EStateM.map some (Grammar.notingFailure (g.unitIn g.maxDepth)) (s.atDepth 0)
  simp only [EStateM.map, Grammar.notingFailure, h]

theorem programStep (ht : g.typing = g'.typing) :
    T.Agree g.programStep g'.programStep
      (Option.Rel fun r r' => Tree.UnitsAlike T.lines r.toList r'.toList) := by
  refine .bind T.currentKind ?_
  rintro kind _ rfl
  refine .ite Iff.rfl (fun _ => .pure .none) fun _ => ?_
  rw [reset_topLevelUnit, reset_topLevelUnit]
  exact .bind T.resetDepth fun _ _ _ =>
    .map (T.notingFailure (T.unitIn ht T.rooms)) fun _ _ h => .some h

theorem program (ht : g.typing = g'.typing) :
    T.Agree g.program g'.program (Tree.UnitsAlike T.lines) :=
  .bind (.collect (T.programStep ht)) fun _ _ h => .bind .get fun _ _ _ =>
    .bind (T.note _ _) fun _ _ _ => .pure (.filterMap h)

/-- **Whole parses go together**: from sources whose scanners are related they find units that are
alike, or fail alike, unless the first is cut off. -/
theorem parseRun (ht : g.typing = g'.typing) {s t : Source}
    (h : T.scanners (.ofSource s) (.ofSource t)) :
    Matching T.Abreast (Failure.Alike T.lines) T.tolerated (Tree.UnitsAlike T.lines)
      (g.parseRun s) (g'.parseRun t) :=
  T.program ht _ _ ⟨⟨h, .none⟩, rfl, rfl⟩

end Twin

end ExprLang.Grammar
