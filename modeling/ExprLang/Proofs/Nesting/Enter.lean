import ExprLang.Proofs.Nesting.Balance

/-!
# The rules enter levels

The nested rules are given the room that is left below the nesting limit, so that they recurse on
it. At the present depth they do what is written here without the room: they go a level down by
`enter`, and grow by no more than `limitHeight` allows.

* `SameAt`: actions that come to the same at a depth, with a rule for each way to compose them.
* `sameAt_enter_zero`, `sameAt_enter_succ`: to enter a level is to give up some of the room.
* `climb_eq`: the height is limited in every round.
* **`binding_eq`**, **`signed_eq`**, **`grouping_eq`**, **`block_eq`**: the rules that go down.
-/

namespace ExprLang.Grammar

variable {α β : Type} {g : Grammar} {d e : Nat}

/-! ## Actions at a depth -/

/-- The actions come to the same wherever the depth is `d`. -/
def SameAt (d : Nat) (x y : ParseM α) : Prop := ∀ s, s.depth = d → x s = y s

/-- A success of the action leads from depth `d` to depth `e`. -/
def EndsAt (d e : Nat) (x : ParseM α) : Prop :=
  ∀ s a t, s.depth = d → x s = .ok a t → t.depth = e

theorem Counts.endsAt {top : Nat} {x : ParseM α} (h : Counts d e top x) : EndsAt d e x :=
  fun s a t hs hr => (h s a t hs hr).1

theorem Flat.endsAt {x : ParseM α} (h : Flat x) : EndsAt d d x :=
  fun _ _ _ hs hr => (h.of_ok hr).1.trans hs

theorem endsAt_deepen : EndsAt d (d + 1) deepen := (Counts.deepen (Nat.le_refl _)).endsAt

theorem endsAt_beginRound (left : Tree) (height : Nat) : EndsAt d d (beginRound left height) := by
  intro s _ t hs h
  obtain rfl := modify_eq_ok_iff.mp h
  exact hs

theorem endsAt_exceedDepth : EndsAt d e (g.exceedDepth : ParseM α) :=
  fun _ _ _ _ h => absurd h exceedDepth_ne_ok

theorem endsAt_signedIn (room : Nat) : EndsAt d d (g.signedIn room) :=
  ((counts_nested room).1 d (Nat.le_refl _)).endsAt

theorem endsAt_bindingIn (room : Nat) (previous : Option Token) (inParen : Bool) :
    EndsAt d d (g.bindingIn room previous inParen) :=
  ((counts_nested room).2 d (Nat.le_refl _) previous inParen).endsAt

namespace SameAt

variable {x y : ParseM α}

theorem eq_of_forall (h : ∀ d, SameAt d x y) : x = y := funext fun s => h s.depth s rfl

theorem refl (x : ParseM α) : SameAt d x x := fun _ _ => rfl

theorem symm (h : SameAt d x y) : SameAt d y x := fun s hs => (h s hs).symm

theorem trans {z : ParseM α} (h : SameAt d x y) (h' : SameAt d y z) : SameAt d x z :=
  fun s hs => (h s hs).trans (h' s hs)

theorem bind {f k : α → ParseM β} (h : SameAt d x y) (hx : EndsAt d e x)
    (hf : ∀ a, SameAt e (f a) (k a)) : SameAt d (x >>= f) (y >>= k) := by
  intro s hs
  simp only [Bind.bind, EStateM.bind, ← h s hs]
  rcases hr : x s with ⟨a, t⟩ | ⟨e, t⟩
  · exact hf a t (hx s a t hs hr)
  · rfl

theorem after {f k : α → ParseM β} (hx : EndsAt d e x) (hf : ∀ a, SameAt e (f a) (k a)) :
    SameAt d (x >>= f) (x >>= k) := (refl x).bind hx hf

theorem map (f : α → β) (h : SameAt d x y) : SameAt d (f <$> x) (f <$> y) := by
  intro s hs
  simp only [Functor.map, EStateM.map, h s hs]

theorem ite {c : Prop} [Decidable c] {x' y' : ParseM α} (h : SameAt d x y) (h' : SameAt d x' y') :
    SameAt d (if c then x else x') (if c then y else y') := by
  split
  · exact h
  · exact h'

theorem room {x : Nat → ParseM α} {room : Nat} (h : g.maxDepth - d = room) :
    SameAt d (x room) (g.room >>= x) := by
  rintro s rfl
  rw [← h]
  rfl

theorem collectFrom {size : ParseState → Nat} {step step' : ParseM (Option α)}
    {shrinks : Shrinks size (·.isSome = true) step}
    {shrinks' : Shrinks size (·.isSome = true) step'} (h : SameAt d step step')
    (hstep : EndsAt d d step) (found : List α) :
    SameAt d (collectFrom size step shrinks found) (collectFrom size step' shrinks' found) := by
  intro s hs
  fun_induction ExprLang.collectFrom size step shrinks found s with
  | case1 found s f t hr | case2 found s t hr =>
    rw [Parallel.collectFrom_eq, ← h s hs, hr]
  | case3 found s a t hr ih =>
    rw [Parallel.collectFrom_eq found, ← h s hs, hr]
    exact ih (hstep s _ t hs hr)

theorem inNewScope (h : SameAt d x y) : SameAt d (inNewScope x) (inNewScope y) := by
  intro s hs
  unfold Grammar.inNewScope
  rw [h { s with scopes := s.scopes.push } hs]

end SameAt

/-! ## Entering -/

/-- Nothing comes behind a level that is one too many. -/
theorem exceedDepth_bind (f : α → ParseM β) : g.exceedDepth >>= f = g.exceedDepth := by
  unfold exceedDepth
  simp only [bind_assoc]
  rfl

theorem sameAt_enter_zero {x : ParseM α} (h : g.maxDepth - d = 0) :
    SameAt d g.exceedDepth (do g.enter; x) := by
  rintro s rfl
  have henter : g.enter s = g.exceedDepth s := by
    change (if g.maxDepth - s.depth = 0 then g.exceedDepth else deepen) s = _
    rw [if_pos h]
  rw [← exceedDepth_bind fun _ : Unit => x]
  simp only [bind, EStateM.bind, henter]

theorem sameAt_enter_succ {room : Nat} {x y : ParseM α} (h : g.maxDepth - d = room + 1)
    (hx : g.maxDepth - (d + 1) = room → SameAt (d + 1) x y) :
    SameAt d (do deepen; x) (do g.enter; y) := by
  refine .bind ?_ endsAt_deepen fun _ => hx (by omega)
  rintro s rfl
  change _ = (if g.maxDepth - s.depth = 0 then g.exceedDepth else deepen) s
  rw [if_neg (by omega)]

/-! ## Climbing -/

theorem limitHeight_bind (height : Nat) (line : UInt32) (x : ParseM α) :
    (do g.limitHeight height line; x) =
      if g.maxDepth < height then g.exceedHeight line else x := by
  unfold limitHeight
  split
  · unfold exceedHeight
    simp only [bind_assoc]
    rfl
  · rfl

/-- **The height is limited in every round** of climbing. -/
theorem climb_eq (g : Grammar) (rightOperand : Token → ParseM (Option Tree))
    (previous : Option Token) (inParen : Bool) (left : Tree) (height : Nat) :
    g.climb rightOperand previous inParen left height = (do
      beginRound left height
      let token ← g.lookahead
      match g.afterOperand inParen (← get).previous token with
      | .error cause => refuse cause token.line
      | .ok false => return left
      | .ok true =>
        checkTarget token left
        if g.yields previous token then return left
        else
          let operator ← g.consume
          match ← rightOperand operator with
          | none => refuse (.expectedOperand operator.value) operator.line
          | some right =>
            g.limitHeight (1 + max height right.height) operator.line
            g.climb rightOperand previous inParen (pair operator left right)
              (1 + max height right.height)) := by
  rw [climb]
  refine bind_congr fun _ => bind_congr fun token => bind_congr fun s => ?_
  rcases g.afterOperand inParen s.previous token with cause | _ | _
  · rfl
  · rfl
  · refine bind_congr fun _ => if_congr Iff.rfl rfl <|
      bind_congr fun operator => bind_congr fun found => ?_
    rcases found with _ | right
    · rfl
    · simp only [limitHeight_bind, dite_eq_ite]

theorem sameAt_climb {rightOperand rightOperand' : Token → ParseM (Option Tree)}
    (h : ∀ operator, SameAt d (rightOperand operator) (rightOperand' operator))
    (hd : ∀ operator, EndsAt d d (rightOperand operator)) (previous : Option Token)
    (inParen : Bool) (left : Tree) (height : Nat) :
    SameAt d (g.climb rightOperand previous inParen left height)
      (g.climb rightOperand' previous inParen left height) := by
  rw [climb, climb]
  refine .after (endsAt_beginRound _ _) fun _ =>
    .after Flat.lookahead.endsAt fun token => .after Flat.get.endsAt fun s => ?_
  rcases g.afterOperand inParen s.previous token with cause | _ | _
  · exact .refl _
  · exact .refl _
  · refine .after (Flat.checkTarget _ _).endsAt fun _ => .ite (.refl _) <|
      .after Flat.consume.endsAt fun operator => .bind (h operator) (hd operator) fun found => ?_
    rcases found with _ | right
    · exact .refl _
    · simp only
      split
      · exact .refl _
      · exact sameAt_climb h hd previous inParen _ _
termination_by g.maxDepth - height

/-! ## Rules that go down -/

variable {room : Nat}

theorem sameAt_bindingIn (h : g.maxDepth - d = room) (previous : Option Token) (inParen : Bool) :
    SameAt d (g.bindingIn room previous inParen) (g.binding previous inParen) :=
  .room (x := fun room => g.bindingIn room previous inParen) h

/-- **Operands with operators between them** are a level down. -/
theorem binding_eq (g : Grammar) (previous : Option Token) (inParen : Bool) :
    g.binding previous inParen = (do
      g.enter
      match ← g.signed with
      | some left =>
        let tree ← g.climb (fun operator => g.binding (some operator) inParen) previous inParen
          left left.height
        leave
        return some tree
      | none =>
        match previous with
        | some operator => refuse (.expectedOperand operator.value) (← g.currentLine)
        | none =>
          let token ← g.lookahead
          match g.insteadOfOperand inParen token with
          | some cause => refuse cause token.line
          | none =>
            leave
            return none) := by
  refine SameAt.eq_of_forall fun d => (sameAt_bindingIn rfl _ _).symm.trans ?_
  rcases hroom : g.maxDepth - d with _ | room
  · exact sameAt_enter_zero hroom
  · refine sameAt_enter_succ hroom fun hbelow => .bind (.room hbelow) (endsAt_signedIn room)
      fun found => ?_
    rcases found with _ | left
    · exact .refl _
    · have hclimb : EndsAt (d + 1) (d + 1) (g.climb (fun operator =>
          g.bindingIn room (some operator) inParen) previous inParen left left.height) :=
        (counts_climb (fun _ => (counts_nested room).2 (d + 1) (Nat.le_refl _) _ _) _ _ _ _).endsAt
      exact .bind (sameAt_climb (fun _ => sameAt_bindingIn hbelow _ _)
        (fun _ => endsAt_bindingIn _ _ _) _ _ _ _) hclimb fun _ => .refl _

theorem sameAt_groupContentIn :
    SameAt d (g.groupContentIn (g.maxDepth - d)) (do g.enter; g.binding none true) := by
  rcases hroom : g.maxDepth - d with _ | room
  · exact sameAt_enter_zero hroom
  · exact sameAt_enter_succ hroom fun hbelow => sameAt_bindingIn hbelow _ _

theorem SameAt.groupOf {content content' : ParseM (Option Tree)} (h : SameAt d content content')
    (hd : EndsAt d e content) : SameAt d (g.groupOf content) (g.groupOf content') :=
  .after Flat.consume.endsAt fun _ => .bind h hd fun _ => .refl _

/-- **An expression in parentheses** is a level down. -/
theorem grouping_eq (g : Grammar) :
    g.grouping = g.groupOf (do g.enter; g.binding none true) :=
  SameAt.eq_of_forall fun _ => (SameAt.room rfl).symm.trans <|
    .groupOf sameAt_groupContentIn (counts_groupContentIn (Nat.le_refl _)).endsAt

/-- **What an operator before an operand stands for** is a level down. -/
theorem signed_eq (g : Grammar) :
    g.signed = (do
      if g.vocabulary.isBefore (← g.currentKind) then
        let operator ← g.consume
        g.enter
        let operand ← g.signed
        leave
        match operand with
        | some operand => return some (.unary operator none operand)
        | none => refuse .expectedSigned operator.line
      else g.trailed) := by
  refine SameAt.eq_of_forall fun d => (SameAt.room rfl).symm.trans ?_
  have htrailed : SameAt d (g.trailedOf (g.groupOf (g.groupContentIn (g.maxDepth - d))))
      g.trailed := .room (x := fun room => g.trailedOf (g.groupOf (g.groupContentIn room))) rfl
  rcases hroom : g.maxDepth - d with _ | room <;> rw [hroom] at htrailed <;> rw [signedIn]
  · refine .after Flat.currentKind.endsAt fun _ => .ite ?_ htrailed
    rw [show discard g.consume = (fun _ => ()) <$> g.consume from rfl, bind_map_left]
    exact .after Flat.consume.endsAt fun operator => sameAt_enter_zero hroom
  · refine .after Flat.currentKind.endsAt fun _ => .ite ?_ htrailed
    refine .after Flat.consume.endsAt fun operator => sameAt_enter_succ hroom fun hbelow => ?_
    exact .bind (.room hbelow) (endsAt_signedIn room) fun _ => .refl _

/-! ## Blocks -/

/-- Statements at the present depth, as parts of a block. -/
def presentStatement (g : Grammar) : Part :=
  ⟨g.statement, .bind g.room_keeps fun _ => g.statementIn_keeps _,
    .bind_right g.room_keeps fun _ => g.statementIn_shrinks _⟩

/-- Blocks at the present depth, as parts of a block. -/
def presentBlock (g : Grammar) : Part :=
  ⟨g.block, .bind g.room_keeps fun room => (g.blockPart room).keeps,
    .bind_right g.room_keeps fun room => (g.blockPart room).shrinks⟩

theorem sameAt_blockPart (h : g.maxDepth - d = room) :
    SameAt d (g.blockPart room).run g.block := .room (x := g.blockIn) h

theorem sameAt_insideOf (h : g.maxDepth - d = room) :
    SameAt d (g.insideOf (g.statementPart room) (g.blockPart room))
      (g.insideOf g.presentStatement g.presentBlock) := by
  have hstatement : Counts d d (d + room) (g.statementPart room).run :=
    counts_statementIn (Nat.le_refl _)
  have hblock : Counts d d (d + room) (g.blockPart room).run :=
    counts_blockPart room (Nat.le_refl _)
  have hstep : SameAt d (bodyStep (g.statementPart room) (g.blockPart room))
      (bodyStep g.presentStatement g.presentBlock) :=
    .bind (.room (x := g.statementIn) h) hstatement.endsAt fun _ =>
      .bind (sameAt_blockPart h) hblock.endsAt fun _ => .refl _
  have hends : EndsAt d d (bodyStep (g.statementPart room) (g.blockPart room)) :=
    (counts_bodyStep hstatement hblock).endsAt
  exact .bind (.map _ (.collectFrom hstep hends [])) (counts_bodyOf hstatement hblock).endsAt
    fun _ => .refl _

theorem SameAt.blockOf {inside inside' : ParseM (List Tree × Nat)} (h : SameAt d inside inside')
    (hd : EndsAt d e inside) : SameAt d (g.blockOf inside) (g.blockOf inside') := by
  refine .after (Flat.accept _).endsAt fun found => ?_
  rcases found with _ | opening
  · exact .refl _
  · exact .after (Flat.note _).endsAt fun _ => .bind h hd fun _ => .refl _

/-- **The inside of a block** is a level down. -/
theorem block_eq (g : Grammar) :
    g.block = g.blockOf (do
      g.enter
      inNewScope (g.insideOf g.presentStatement g.presentBlock)) := by
  refine SameAt.eq_of_forall fun d => (sameAt_blockPart rfl).symm.trans ?_
  rcases hroom : g.maxDepth - d with _ | room
  · exact .blockOf (sameAt_enter_zero hroom) (e := d) endsAt_exceedDepth
  · have hinside : Counts d d (d + 1 + room) (do
        deepen
        inNewScope (g.insideOf (g.statementPart room) (g.blockPart room))) :=
      .bind (.deepen (by omega)) fun _ => counts_inNewScope <| counts_insideOf
        (counts_statementIn (Nat.le_refl _)) (counts_blockPart room (Nat.le_refl _)) (by omega)
    exact .blockOf (sameAt_enter_succ hroom fun hbelow => .inNewScope (sameAt_insideOf hbelow))
      hinside.endsAt

end ExprLang.Grammar
