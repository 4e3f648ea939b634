import ExprLang.Grammar.State
import ExprLang.Typing.Check

/-!
# Expressions

    expression = binding ";" | ";"
    binding    = signed { operator signed }
    signed     = { operator } operand [ operator ]
    operand    = literal | name | "(" binding ")"

Operators between operands are resolved by precedence climbing: `climb` extends the expression read
so far for as long as the operator that waits for it (`previous`) does not bind it more tightly than
the one coming in. Whether an operator is allowed in a place is the vocabulary's to say.

A rule answers none when nothing of its kind starts here, and has taken no token then. The rules
that go a level down recurse on the room left below the nesting limit; `climb` ends because the
expression grows taller with every operator and is limited by the same number.
-/

namespace ExprLang.Grammar

variable (g : Grammar)

/-! ## Operands -/

/-- A literal, with the type that the vocabulary gives its kind. -/
def literal : ParseM Tree := do
  let token ← g.consume
  match g.vocabulary.literalType? token.kind with
  | some type => return .literal token type
  | none => refuse (.unexpectedToken token.value) token.line

/-- A use of a declared name, with the type and mutability of its innermost declaration. -/
def symbol : ParseM Tree := do
  let token ← g.consume
  match (← get).scopes.lookup token.value with
  | some symbol => return .reference token symbol.type symbol.assignable
  | none => refuse (.invalidId token.value) token.line

/-- An expression in parentheses; `content` goes a level down and reads what is inside. -/
def groupOf (content : ParseM (Option Tree)) : ParseM Tree := do
  let opening ← g.consume
  match ← content with
  | some tree =>
    discard (g.expectOr .closeParen (.missingToken ")"))
    leave
    return tree
  | none => refuse (.expectedOperand opening.value) opening.line

/-- An operand, by the rule for the next token; `group` reads one in parentheses. -/
def operandOf (group : ParseM Tree) : ParseM (Option Tree) := do
  match g.operands.get? (← g.currentKind) with
  | some .literal => some <$> g.literal
  | some .symbol => some <$> g.symbol
  | some .grouping => some <$> group
  | none => return none

/-- An operand and, if one follows it, an operator that stands after its operand. -/
def trailedOf (group : ParseM Tree) : ParseM (Option Tree) := do
  match ← g.operandOf group with
  | some operand =>
    if g.vocabulary.isAfter (← g.currentKind) then
      let operator ← g.consume
      return some (.unary operator none operand)
    else return some operand
  | none => return none

/-! ## Operators between operands -/

/-- Refuses a target of `=` that is not an assignable variable. -/
def checkAssignable (target : Tree) (line : UInt32) : ParseM Unit := do
  match target with
  | .reference token _ _ =>
    match (← get).scopes.lookup token.value with
    | some symbol =>
      if symbol.assignable then return () else refuse (.constantAssignment token.value) line
    | none => refuse (.invalidVariable token.value) line
  | _ => refuse .expectedAssignable line

/-- Refuses an assignment to anything but an assignable variable; `target` is what stands before
the operator. -/
def checkTarget (operator : Token) (target : Tree) : ParseM Unit :=
  if operator.kind = .assignment then checkAssignable target operator.line else pure ()

/-- What a token behind an operand means: the expression goes on (true), it ends (false), or the
token may not stand there. `previous` is the lexeme before the token. -/
def afterOperand (inParen : Bool) (previous : String) (token : Token) : Except Cause Bool :=
  match token.kind, inParen with
  | .eof, true => .error (.missingToken ")")
  | .eof, false => .error (.missingToken ";")
  | .semicolon, true => .error (.missingToken ")")
  | .semicolon, false => .ok false
  | .closeParen, true => .ok false
  | .closeParen, false => .error (.unexpectedToken token.value)
  | .closeCurly, false => .error (.missingToken ";")
  | kind, _ =>
    if g.vocabulary.isBetween kind then .ok true else .error (.expectedBetween previous)

/-- What a token means where an operand is missing: it may just not start an expression, or it
may not stand there. -/
def insteadOfOperand (inParen : Bool) (token : Token) : Option Cause :=
  if token.kind = .closeParen ∧ inParen = false then some (.unexpectedToken token.value)
  else if g.vocabulary.isBetween token.kind then some (.missingOperand token.value)
  else none

/-- Whether the operator that waits for an operand binds it more tightly than the next one. -/
def yields (previous : Option Token) (incoming : Token) : Bool :=
  previous.any fun p => g.vocabulary.compareBinding p.kind incoming.kind == .gt

/-- The node of an operator between two operands. -/
def pair (operator : Token) (left right : Tree) : Tree :=
  if operator.kind = .assignment then .assignment operator none left right
  else .binary operator none left right

/-- Extends the expression `left`, of the given height, by the operators that follow it.
`rightOperand` reads what stands to the right of an operator. -/
def climb (rightOperand : Token → ParseM (Option Tree)) (previous : Option Token) (inParen : Bool)
    (left : Tree) (height : Nat) : ParseM Tree := do
  beginRound left height
  let token ← g.lookahead
  match g.afterOperand inParen (← get).previous token with
  | .error cause => refuse cause token.line
  | .ok false => return left
  | .ok true =>
    checkTarget token left
    if g.yields previous token then return left
    else
      let operator ← g.consume
      match ← rightOperand operator with
      | none => refuse (.expectedOperand operator.value) operator.line
      | some right =>
        if _h : g.maxDepth < 1 + max height right.height then g.exceedHeight operator.line
        else
          climb rightOperand previous inParen (pair operator left right)
            (1 + max height right.height)
termination_by g.maxDepth - height

/-! ## Nested rules -/

mutual

/-- Operators before an operand, and the operand, with room for so many levels. -/
def signedIn : Nat → ParseM (Option Tree)
  | 0 => do
    if g.vocabulary.isBefore (← g.currentKind) then
      discard g.consume
      g.exceedDepth
    else g.trailedOf (g.groupOf g.exceedDepth)
  | room + 1 => do
    if g.vocabulary.isBefore (← g.currentKind) then
      let operator ← g.consume
      deepen
      let operand ← signedIn room
      leave
      match operand with
      | some operand => return some (.unary operator none operand)
      | none => refuse .expectedSigned operator.line
    else g.trailedOf (g.groupOf (do deepen; bindingIn room none true))

/-- Operands with operators between them, with room for so many levels. `previous` is the operator
whose right operand this is; `inParen` says whether `)` or `;` ends it. -/
def bindingIn : Nat → Option Token → Bool → ParseM (Option Tree)
  | 0, _, _ => g.exceedDepth
  | room + 1, previous, inParen => do
    deepen
    match ← signedIn room with
    | some left =>
      let tree ← g.climb (fun operator => bindingIn room (some operator) inParen) previous inParen
        left left.height
      leave
      return some tree
    | none =>
      match previous with
      | some operator => refuse (.expectedOperand operator.value) (← g.currentLine)
      | none =>
        let token ← g.lookahead
        match g.insteadOfOperand inParen token with
        | some cause => refuse cause token.line
        | none =>
          leave
          return none

end

/-- What is inside parentheses, one level down. -/
def groupContentIn : Nat → ParseM (Option Tree)
  | 0 => g.exceedDepth
  | room + 1 => do
    deepen
    g.bindingIn room none true

/-! ## Whole expressions -/

/-- Enters what stopped a check in the journal, if it is an operator without an entry. -/
def noteFault (d : Diagnostic) : ParseM Unit :=
  match d.cause.checkEvent? with
  | some e => note e
  | none => pure ()

/-- Types a finished expression. -/
def typed (tree : Tree) : ParseM Tree :=
  match tree.check g.typing with
  | ⟨checked, none⟩ => pure checked
  | ⟨_, some d⟩ => do
    noteFault d
    throw (.refused d)

/-- An expression with its semicolon, with room for so many levels. Only a complete one is typed,
so that an error of form comes before an error of type. -/
def expressionIn (room : Nat) : ParseM (Option Tree) := do
  match ← g.bindingIn room none false with
  | some tree =>
    discard (g.expectOr .semicolon (.missingToken ";"))
    some <$> g.typed tree
  | none => return (← g.accept .semicolon).map fun _ => .empty

/-! ## Progress -/

theorem literal_keeps : Keeps ParseState.remaining g.literal := by
  refine .bind g.consume_keeps fun token => ?_
  split
  · exact .pure _
  · exact refuse_keeps _ _

theorem symbol_keeps : Keeps ParseState.remaining g.symbol := by
  refine .bind g.consume_keeps fun token => .bind .get fun s => ?_
  split
  · exact .pure _
  · exact refuse_keeps _ _

theorem expectOr_keeps {kind : Kind} (hk : kind ≠ .eof) (cause : Cause) :
    Keeps ParseState.remaining (g.expectOr kind cause) := (g.expectOr_shrinks hk cause).keeps

theorem discard_expectOr_keeps {kind : Kind} (hk : kind ≠ .eof) (cause : Cause) :
    Keeps ParseState.remaining (discard (g.expectOr kind cause)) :=
  .map _ (g.expectOr_keeps hk cause)

theorem groupOf_keeps {content : ParseM (Option Tree)} (h : Keeps ParseState.remaining content) :
    Keeps ParseState.remaining (g.groupOf content) := by
  refine .bind g.consume_keeps fun opening => .bind h fun r => ?_
  split
  · exact .bind (g.discard_expectOr_keeps (by decide) _) fun _ =>
      .bind leave_keeps fun _ => .pure _
  · exact refuse_keeps _ _

theorem operandOf_keeps {group : ParseM Tree} (h : Keeps ParseState.remaining group) :
    Keeps ParseState.remaining (g.operandOf group) := by
  refine .bind g.currentKind_keeps fun kind => ?_
  split
  · exact .map _ g.literal_keeps
  · exact .map _ g.symbol_keeps
  · exact .map _ h
  · exact .pure _

theorem trailedOf_keeps {group : ParseM Tree} (h : Keeps ParseState.remaining group) :
    Keeps ParseState.remaining (g.trailedOf group) := by
  refine .bind (g.operandOf_keeps h) fun r => ?_
  split
  · refine .bind g.currentKind_keeps fun kind => ?_
    split
    · exact .bind g.consume_keeps fun _ => .pure _
    · exact .pure _
  · exact .pure _

theorem checkAssignable_keeps (target : Tree) (line : UInt32) :
    Keeps ParseState.remaining (checkAssignable target line) := by
  unfold checkAssignable
  split
  · refine .bind .get fun s => ?_
    split
    · split
      · exact .pure _
      · exact refuse_keeps _ _
    · exact refuse_keeps _ _
  · exact refuse_keeps _ _

theorem checkTarget_keeps (operator : Token) (target : Tree) :
    Keeps ParseState.remaining (checkTarget operator target) := by
  unfold checkTarget
  split
  · exact checkAssignable_keeps _ _
  · exact .pure _

theorem climb_keeps {rightOperand : Token → ParseM (Option Tree)}
    (h : ∀ operator, Keeps ParseState.remaining (rightOperand operator)) (previous : Option Token)
    (inParen : Bool) (left : Tree) (height : Nat) :
    Keeps ParseState.remaining (g.climb rightOperand previous inParen left height) := by
  rw [climb]
  refine .bind (beginRound_keeps _ _) fun _ => .bind g.lookahead_keeps fun token =>
    .bind .get fun s => ?_
  split
  · exact refuse_keeps _ _
  · exact .pure _
  · refine .bind (checkTarget_keeps _ _) fun _ => ?_
    split
    · exact .pure _
    · refine .bind g.consume_keeps fun operator => .bind (h operator) fun r => ?_
      split
      · exact refuse_keeps _ _
      · split
        · exact g.exceedHeight_keeps _
        · exact climb_keeps h previous inParen _ _
termination_by g.maxDepth - height

theorem nested_keeps (room : Nat) :
    Keeps ParseState.remaining (g.signedIn room) ∧
      ∀ previous inParen, Keeps ParseState.remaining (g.bindingIn room previous inParen) := by
  induction room with
  | zero =>
    refine ⟨?_, fun _ _ => g.exceedDepth_keeps⟩
    refine .bind g.currentKind_keeps fun kind => ?_
    split
    · exact .bind (.map _ g.consume_keeps) fun _ => g.exceedDepth_keeps
    · exact g.trailedOf_keeps (g.groupOf_keeps g.exceedDepth_keeps)
  | succ room ih =>
    constructor
    · refine .bind g.currentKind_keeps fun kind => ?_
      split
      · refine .bind g.consume_keeps fun operator => .bind deepen_keeps fun _ =>
          .bind ih.1 fun r => .bind leave_keeps fun _ => ?_
        split
        · exact .pure _
        · exact refuse_keeps _ _
      · exact g.trailedOf_keeps (g.groupOf_keeps (.bind deepen_keeps fun _ => ih.2 _ _))
    · intro previous inParen
      refine .bind deepen_keeps fun _ => .bind ih.1 fun r => ?_
      split
      · exact .bind (g.climb_keeps (fun _ => ih.2 _ _) _ _ _ _) fun _ =>
          .bind leave_keeps fun _ => .pure _
      · split
        · exact .bind g.currentLine_keeps fun _ => refuse_keeps _ _
        · refine .bind g.lookahead_keeps fun token => ?_
          split
          · exact refuse_keeps _ _
          · exact .bind leave_keeps fun _ => .pure _

theorem bindingIn_keeps (room : Nat) (previous : Option Token) (inParen : Bool) :
    Keeps ParseState.remaining (g.bindingIn room previous inParen) :=
  (g.nested_keeps room).2 previous inParen

theorem typed_keeps (tree : Tree) : Keeps ParseState.remaining (g.typed tree) := by
  unfold typed
  split
  · exact .pure _
  · refine .bind ?_ fun _ => .throw _
    unfold noteFault
    split
    · exact note_keeps _
    · exact .pure _

theorem expressionIn_keeps (room : Nat) : Keeps ParseState.remaining (g.expressionIn room) := by
  refine .bind (g.bindingIn_keeps _ _ _) fun r => ?_
  split
  · exact .bind (g.discard_expectOr_keeps (by decide) _) fun _ => .map _ (g.typed_keeps _)
  · exact .bind (g.accept_keeps _) fun _ => .pure _

/-- An expression takes its semicolon. -/
theorem expressionIn_shrinks (room : Nat) :
    Shrinks ParseState.remaining (·.isSome = true) (g.expressionIn room) := by
  refine .bind_right (g.bindingIn_keeps _ _ _) fun r => ?_
  split
  · exact .bind_left (.map (g.expectOr_shrinks (by decide) _)) fun _ => .map _ (g.typed_keeps _)
  · refine .bind (g.accept_keeps _) (g.accept_shrinks (by decide)) (fun _ => .pure _) fun r hr => ?_
    exact .pure (by simpa using hr)

/-! ## Rules at the present depth -/

/-- Operators before an operand, and the operand. -/
def signed : ParseM (Option Tree) := do g.signedIn (← g.room)

/-- Operands with operators between them. -/
def binding (previous : Option Token) (inParen : Bool) : ParseM (Option Tree) := do
  g.bindingIn (← g.room) previous inParen

/-- An expression in parentheses. -/
def grouping : ParseM Tree := do g.groupOf (g.groupContentIn (← g.room))

/-- An operand. -/
def operand : ParseM (Option Tree) := do g.operandOf (g.groupOf (g.groupContentIn (← g.room)))

/-- An operand with an operator behind it. -/
def trailed : ParseM (Option Tree) := do g.trailedOf (g.groupOf (g.groupContentIn (← g.room)))

/-- An expression with its semicolon. -/
def expression : ParseM (Option Tree) := do g.expressionIn (← g.room)

end ExprLang.Grammar
