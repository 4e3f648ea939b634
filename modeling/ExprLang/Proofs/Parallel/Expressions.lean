import ExprLang.Grammar.Expression
import ExprLang.Proofs.Parallel.Tokens

/-!
# Parses side by side: expressions

The rules for expressions build trees that are alike, or fail alike, on sources whose tokens are
alike. Every rule goes together with itself if its parts do; `nested` is the induction on the room
below the nesting limit, and `climb` the one on the height that is left for an expression.
-/

namespace ExprLang.Grammar.Twin

variable {g g' : Grammar} (T : Twin g g') {a b : Token} {x y x' y' : Tree}

/-! ## Operands -/

theorem literal : T.Agree g.literal g'.literal (Tree.Alike T.lines) := by
  refine .bind T.consume fun a b h => ?_
  rw [T.vocabulary, h.kind, h.value]
  cases g'.vocabulary.literalType? b.kind with
  | none => exact T.refuse _ h.line
  | some type => exact .pure (.literal h)

theorem symbol : T.Agree g.symbol g'.symbol (Tree.Alike T.lines) := by
  refine .bind T.consume fun a b h => .bind .get fun s t hst => ?_
  rw [hst.scopes, h.value]
  cases t.scopes.lookup b.value with
  | none => exact T.refuse _ h.line
  | some symbol => exact .pure (.reference h)

theorem groupOf {content content' : ParseM (Option Tree)}
    (h : T.Agree content content' (Option.Rel (Tree.Alike T.lines))) :
    T.Agree (g.groupOf content) (g'.groupOf content') (Tree.Alike T.lines) := by
  refine .bind T.consume fun a b hab => .bind h fun r r' hr => ?_
  cases hr with
  | none =>
    rw [hab.value]
    exact T.refuse _ hab.line
  | some same =>
    exact .bind (.discard (T.expectOr _ _)) fun _ _ _ => .bind T.leave fun _ _ _ => .pure same

theorem operandOf {group group' : ParseM Tree} (h : T.Agree group group' (Tree.Alike T.lines)) :
    T.Agree (g.operandOf group) (g'.operandOf group') (Option.Rel (Tree.Alike T.lines)) := by
  refine .bind T.currentKind ?_
  rintro kind _ rfl
  rw [T.operands]
  rcases g'.operands.get? kind with _ | _ | _ | _
  · exact .pure .none
  · exact .map T.literal fun _ _ => .some
  · exact .map T.symbol fun _ _ => .some
  · exact .map h fun _ _ => .some

theorem trailedOf {group group' : ParseM Tree} (h : T.Agree group group' (Tree.Alike T.lines)) :
    T.Agree (g.trailedOf group) (g'.trailedOf group') (Option.Rel (Tree.Alike T.lines)) := by
  refine .bind (T.operandOf h) fun r r' hr => ?_
  cases hr with
  | none => exact .pure .none
  | some same =>
    refine .bind T.currentKind ?_
    rintro kind _ rfl
    refine .ite (by rw [T.vocabulary]) (fun _ => ?_) fun _ => .pure (.some same)
    exact .bind T.consume fun _ _ hab => .pure (.some (.unary hab same))

/-! ## Operators between operands -/

theorem checkTarget (operator : a.Alike T.lines b) (target : x.Alike T.lines y) :
    T.Agree (checkTarget a x) (checkTarget b y) fun _ _ => True := by
  refine .ite (by rw [operator.kind]) (fun _ => ?_) fun _ => .pure trivial
  cases target with
  | @reference c d _ _ token =>
    refine .bind .get fun s t hst => ?_
    rw [hst.scopes, token.value]
    cases t.scopes.lookup d.value with
    | none => exact T.refuse _ operator.line
    | some symbol =>
      exact .ite Iff.rfl (fun _ => .pure trivial) fun _ => T.refuse _ operator.line
  | _ => exact T.refuse _ operator.line

theorem afterOperand_eq (h : a.Alike T.lines b) (inParen : Bool) (previous : String) :
    g.afterOperand inParen previous a = g'.afterOperand inParen previous b := by
  unfold afterOperand
  rw [h.kind, h.value, T.vocabulary]

theorem insteadOfOperand_eq (h : a.Alike T.lines b) (inParen : Bool) :
    g.insteadOfOperand inParen a = g'.insteadOfOperand inParen b := by
  unfold insteadOfOperand
  rw [h.kind, h.value, T.vocabulary]

theorem yields_eq {previous previous' : Option Token}
    (hp : Option.Rel (Token.Alike T.lines) previous previous') (h : a.Alike T.lines b) :
    g.yields previous a = g'.yields previous' b := by
  cases hp with
  | none => rfl
  | some hp =>
    change (_ == _) = (_ == _)
    rw [hp.kind, h.kind, T.vocabulary]

theorem pair (operator : a.Alike T.lines b) (left : x.Alike T.lines y)
    (right : x'.Alike T.lines y') : (pair a x x').Alike T.lines (pair b y y') := by
  unfold Grammar.pair
  rw [operator.kind]
  split
  · exact .assignment operator left right
  · exact .binary operator left right

/-- An expression that is too tall in the first parse is in the second, or being cut off is
tolerated. -/
theorem climb {rightOperand rightOperand' : Token → ParseM (Option Tree)}
    (hright : ∀ a b, a.Alike T.lines b →
      T.Agree (rightOperand a) (rightOperand' b) (Option.Rel (Tree.Alike T.lines)))
    {previous previous' : Option Token}
    (hp : Option.Rel (Token.Alike T.lines) previous previous') (inParen : Bool) {left left' : Tree}
    (hleft : left.Alike T.lines left') (height : Nat) :
    T.Agree (g.climb rightOperand previous inParen left height)
      (g'.climb rightOperand' previous' inParen left' height) (Tree.Alike T.lines) := by
  rw [Grammar.climb, Grammar.climb]
  refine .bind (T.beginRound _ _ _ _) fun _ _ _ => .bind T.lookahead fun a b hab =>
    .bind .get fun s t hst => ?_
  rw [T.afterOperand_eq hab, hst.previous]
  rcases g'.afterOperand inParen t.previous b with cause | _ | _
  · exact T.refuse _ hab.line
  · exact .pure hleft
  · refine .bind (T.checkTarget hab hleft) fun _ _ _ =>
      .ite (by rw [T.yields_eq hp hab]) (fun _ => .pure hleft) fun _ =>
        .bind T.consume fun a b hab => .bind (hright _ _ hab) fun r r' hr => ?_
    cases hr with
    | none =>
      rw [hab.value]
      exact T.refuse _ hab.line
    | @some right right' same =>
      simp only [same.height_eq]
      by_cases htall : g.maxDepth < 1 + max height right'.height
      · rw [dif_pos htall]
        rcases T.limit with hg | ⟨-, hcut⟩
        · rw [dif_pos (hg ▸ htall)]
          exact T.exceedHeight_same hg hab.line
        · exact T.exceedHeight_cut hcut _ _
      · have hle : g.maxDepth ≤ g'.maxDepth := T.limit.elim Nat.le_of_eq And.left
        rw [dif_neg htall, dif_neg (by omega)]
        exact climb hright hp inParen (T.pair hab hleft same) _
termination_by g.maxDepth - height
decreasing_by omega

/-! ## Nested rules -/

end Twin

theorem looks_signedIn (g : Grammar) (room : Nat) : Looks g (g.signedIn room) := by
  cases room <;> exact .bind .currentKind _

theorem looks_bindingIn (g : Grammar) (room : Nat) (previous : Option Token) (inParen : Bool) :
    Looks g (g.bindingIn room previous inParen) := by
  cases room with
  | zero => exact g.looks_exceedDepth
  | succ room => exact .deepen (.bind (g.looks_signedIn room) _)

namespace Twin

variable {g g' : Grammar} (T : Twin g g')

/-- Where the first parse has no room left for a level, the second may have some if being cut off is
tolerated. -/
theorem signedIn_zero (hcut : T.Cuts) (room : Nat) :
    T.Agree (g.signedIn 0) (g'.signedIn (room + 1)) (Option.Rel (Tree.Alike T.lines)) := by
  refine .bind T.currentKind ?_
  rintro kind _ rfl
  refine .ite (by rw [T.vocabulary]) (fun _ => ?_) fun _ => ?_
  · exact .bind T.consume.discard_left fun _ _ _ =>
      T.exceedDepth_cut hcut (.deepen (.bind (g'.looks_signedIn _) _))
  · exact T.trailedOf (T.groupOf (T.exceedDepth_cut hcut (.deepen (g'.looks_bindingIn _ _ _))))

/-- What the two parses do in the rules one level down. -/
structure Below (room room' : Nat) : Prop where
  signed : T.Agree (g.signedIn room) (g'.signedIn room') (Option.Rel (Tree.Alike T.lines))
  binding : ∀ {previous previous' : Option Token} (inParen : Bool),
    Option.Rel (Token.Alike T.lines) previous previous' →
    T.Agree (g.bindingIn room previous inParen) (g'.bindingIn room' previous' inParen)
      (Option.Rel (Tree.Alike T.lines))

theorem Below.signedIn {T : Twin g g'} {room room' : Nat} (h : T.Below room room') :
    T.Agree (g.signedIn (room + 1)) (g'.signedIn (room' + 1))
      (Option.Rel (Tree.Alike T.lines)) := by
  refine .bind T.currentKind ?_
  rintro kind _ rfl
  refine .ite (by rw [T.vocabulary]) (fun _ => ?_) fun _ => ?_
  · refine .bind T.consume fun a b hab => .bind T.deepen fun _ _ _ =>
      .bind h.signed fun r r' hr => .bind T.leave fun _ _ _ => ?_
    cases hr with
    | none => exact T.refuse _ hab.line
    | some same => exact .pure (.some (.unary hab same))
  · exact T.trailedOf (T.groupOf (.bind T.deepen fun _ _ _ => h.binding true .none))

theorem Below.bindingIn {T : Twin g g'} {room room' : Nat} (h : T.Below room room')
    {previous previous' : Option Token} (inParen : Bool)
    (hp : Option.Rel (Token.Alike T.lines) previous previous') :
    T.Agree (g.bindingIn (room + 1) previous inParen) (g'.bindingIn (room' + 1) previous' inParen)
      (Option.Rel (Tree.Alike T.lines)) := by
  refine .bind T.deepen fun _ _ _ => .bind h.signed fun r r' hr => ?_
  cases hr with
  | some same =>
    simp only [same.height_eq]
    refine .bind (T.climb (fun a b hab => h.binding inParen (.some hab)) hp inParen same _)
      fun _ _ hleft => .bind T.leave fun _ _ _ => .pure (.some hleft)
  | none =>
    cases hp with
    | some hp =>
      simp only [hp.value]
      exact .bind T.currentLine fun _ _ hl => T.refuse _ hl
    | none =>
      refine .bind T.lookahead fun a b hab => ?_
      rw [T.insteadOfOperand_eq hab]
      cases g'.insteadOfOperand inParen b with
      | some cause => exact T.refuse _ hab.line
      | none => exact .bind T.leave fun _ _ _ => .pure .none

/-- Signs and operands side by side, by induction on the room of the first parse. -/
theorem nested {room room' : Nat} (h : T.Rooms room room') : T.Below room room' := by
  induction room generalizing room' with
  | zero =>
    cases room' with
    | zero =>
      refine ⟨.bind T.currentKind ?_, fun _ _ => T.exceedDepth⟩
      rintro kind _ rfl
      refine .ite (by rw [T.vocabulary]) (fun _ => ?_) fun _ => ?_
      · exact .bind (.discard T.consume) fun _ _ _ => T.exceedDepth
      · exact T.trailedOf (T.groupOf T.exceedDepth)
    | succ room' =>
      obtain - | ⟨hcut, -⟩ := h
      exact ⟨T.signedIn_zero hcut _, fun _ _ => T.exceedDepth_cut hcut (g'.looks_bindingIn _ _ _)⟩
  | succ room ih =>
    cases room' with
    | zero => nomatch h
    | succ room' => exact ⟨(ih h.pred).signedIn, (ih h.pred).bindingIn⟩

end ExprLang.Grammar.Twin
