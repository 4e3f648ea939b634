import ExprLang.Grammar.Expression

/-!
# Statements and blocks

    statement   = declaration | expression
    declaration = keyword name [ ":" type ] [ "=" expression ] ";"
    block       = "{" { statement | block } "}"
    unit        = statement | block

A name is declared before its initializer is read, so the initializer sees it, and gets its type
behind it. A block has a scope of its own (`inNewScope`), which is gone when the block is left, also
by a failure. A semicolon alone and a block without statements leave nothing in the tree.
-/

namespace ExprLang.Grammar

variable (g : Grammar)

/-! ## Declarations -/

/-- A colon and the name of a type; none if there is no colon. -/
def typeClause : ParseM (Option DataType) := do
  match ← g.accept .colon with
  | none => return none
  | some _ =>
    let name ← g.expectOr .typeName .expectedTypeName
    match g.vocabulary.typeNamed? name.value with
    | some type => return some type
    | none => refuse .expectedTypeName name.line

/-- Declares a symbol in the innermost scope. -/
def declare (symbol : Symbol) (line : UInt32) : ParseM Unit := do
  match (← get).scopes.declare symbol line with
  | .ok scopes => modify fun s => { s with scopes := scopes }
  | .error d => throw (.refused d)

/-- Gives a symbol of the innermost scope its type. -/
def resolve (id : String) (type : DataType) : ParseM Unit :=
  modify fun s => { s with scopes := s.scopes.resolve id type }

/-- What follows the `=` of a declaration: an expression that is not a semicolon alone. -/
def initializerIn (room : Nat) (operator : Token) : ParseM Tree := do
  match ← g.expressionIn room with
  | some value => if value.isEmpty then refuse .emptyInitializer operator.line else return value
  | none => refuse .emptyInitializer operator.line

/-- A declaration. With an initializer it is an assignment to what is declared. -/
def declarationIn (room : Nat) : ParseM Tree := do
  let keyword ← g.consume
  let assignable := keyword.kind == .varDecl
  let name ← g.expectOr .identifier .expectedVariableName
  let declared ← g.typeClause
  note (.declaring keyword.value name.value name.line)
  declare ⟨name.value, assignable, declared⟩ name.line
  match ← g.accept .assignment with
  | none =>
    if declared.isNone then refuse (.undeterminedType name.value) name.line
    else
      discard (g.expectOr .semicolon (.missingToken ";"))
      return .declaration name declared assignable
  | some operator =>
    let value ← g.initializerIn room operator
    match unify declared value.type? operator.line with
    | .ok type =>
      resolve name.value type
      return .assignment operator (some type) (.declaration name (some type) assignable) value
    | .error d => throw (.refused d)

/-- A declaration or an expression. -/
def statementIn (room : Nat) : ParseM (Option Tree) := do
  if g.declarators.contains (← g.currentKind) then some <$> g.declarationIn room
  else g.expressionIn room

/-! ## Progress of statements -/

theorem typeClause_keeps : Keeps ParseState.remaining g.typeClause := by
  refine .bind (g.accept_keeps _) fun r => ?_
  split
  · exact .pure _
  · refine .bind (g.expectOr_keeps (by decide) _) fun name => ?_
    split
    · exact .pure _
    · exact refuse_keeps _ _

theorem declare_keeps (symbol : Symbol) (line : UInt32) :
    Keeps ParseState.remaining (declare symbol line) := by
  refine .bind .get fun s => ?_
  split
  · exact .modify fun _ => rfl
  · exact .throw _

theorem resolve_keeps (id : String) (type : DataType) :
    Keeps ParseState.remaining (resolve id type) := .modify fun _ => rfl

theorem initializerIn_keeps (room : Nat) (operator : Token) :
    Keeps ParseState.remaining (g.initializerIn room operator) := by
  refine .bind (g.expressionIn_keeps _) fun r => ?_
  split
  · split
    · exact refuse_keeps _ _
    · exact .pure _
  · exact refuse_keeps _ _

theorem declarationIn_shrinks (room : Nat) :
    Shrinks ParseState.remaining (fun _ => True) (g.declarationIn room) := by
  refine .bind_right g.consume_keeps fun keyword =>
    .bind_left (g.expectOr_shrinks (by decide) _) fun name =>
      .bind g.typeClause_keeps fun declared =>
      .bind (note_keeps _) fun _ => .bind (declare_keeps _ _) fun _ =>
        .bind (g.accept_keeps _) fun r => ?_
  split
  · split
    · exact refuse_keeps _ _
    · exact .bind (g.discard_expectOr_keeps (by decide) _) fun _ => .pure _
  · refine .bind (g.initializerIn_keeps _ _) fun value => ?_
    split
    · exact .bind (resolve_keeps _ _) fun _ => .pure _
    · exact .throw _

theorem statementIn_keeps (room : Nat) : Keeps ParseState.remaining (g.statementIn room) := by
  refine .bind g.currentKind_keeps fun kind => ?_
  split
  · exact .map _ (g.declarationIn_shrinks room).keeps
  · exact g.expressionIn_keeps room

theorem statementIn_shrinks (room : Nat) :
    Shrinks ParseState.remaining (·.isSome = true) (g.statementIn room) := by
  refine .bind_right g.currentKind_keeps fun kind => ?_
  split
  · exact .map ((g.declarationIn_shrinks room).mono fun _ _ => trivial)
  · exact g.expressionIn_shrinks room

/-! ## Blocks -/

/-- A rule that takes a token whenever it finds something. -/
structure Part where
  run : ParseM (Option Tree)
  keeps : Keeps ParseState.remaining run
  shrinks : Shrinks ParseState.remaining (·.isSome = true) run

/-- Statements as parts of a block. -/
def statementPart (room : Nat) : Part :=
  ⟨g.statementIn room, g.statementIn_keeps room, g.statementIn_shrinks room⟩

/-- Performs an action in a new innermost scope, which is closed behind it, also by a failure. -/
def inNewScope {α : Type} (action : ParseM α) : ParseM α := fun s =>
  match action { s with scopes := s.scopes.push } with
  | .ok a t => .ok a { t with scopes := t.scopes.pop }
  | .error e t => .error e { t with scopes := t.scopes.pop }

theorem inNewScope_keeps {α : Type} {action : ParseM α}
    (h : Keeps ParseState.remaining action) : Keeps ParseState.remaining (inNewScope action) := by
  intro s a t hs
  simp only [inNewScope] at hs
  split at hs
  · next ha =>
    have hr := h _ _ _ ha
    cases hs
    exact hr
  · cases hs

/-- What a statement leaves in the tree: nothing, if it is a semicolon alone. -/
def keepStatement (statement : Option Tree) : Option Tree := statement.filter fun t => !t.isEmpty

/-- What a block leaves in the tree: nothing, if it has no statements. -/
def keepBlock (block : Option Tree) : Option Tree :=
  block.filter fun t => !t.children.isEmpty

/-- A statement and then a block, each if there is one; none if there is neither. -/
def bodyStep (statement block : Part) : ParseM (Option (List Tree)) := do
  let s ← statement.run
  let b ← block.run
  if s.isNone && b.isNone then return none
  else return some ((keepStatement s).toList ++ (keepBlock b).toList)

theorem bodyStep_keeps (statement block : Part) :
    Keeps ParseState.remaining (bodyStep statement block) := by
  refine .bind statement.keeps fun s => .bind block.keeps fun b => ?_
  split <;> exact .pure _

theorem bodyStep_shrinks (statement block : Part) :
    Shrinks ParseState.remaining (·.isSome = true) (bodyStep statement block) := by
  refine .bind statement.keeps statement.shrinks (fun s => .bind block.keeps fun b => ?_)
    fun s hs => .bind block.keeps block.shrinks (fun b => ?_) fun b hb => ?_
  · split <;> exact .pure _
  · split <;> exact .pure _
  · have : (s.isNone && b.isNone) = true := by
      cases s <;> cases b <;> simp_all
    rw [if_pos this]
    exact .pure (by simp)

/-- Statements and blocks, as many as there are. -/
def bodyOf (statement block : Part) : ParseM (List Tree) :=
  List.flatten <$> collect ParseState.remaining (bodyStep statement block)
    (bodyStep_shrinks statement block)

/-- The inside of a block up to its closing brace, one level down, and the number of symbols it
declared. -/
def insideOf (statement block : Part) : ParseM (List Tree × Nat) := do
  let statements ← bodyOf statement block
  discard (g.expectOr .closeCurly (.missingToken "\x7d"))
  leave
  return (statements, (← get).scopes.current.size)

theorem insideOf_keeps (statement block : Part) :
    Keeps ParseState.remaining (g.insideOf statement block) :=
  .bind (.map _ (.collect _ (bodyStep_keeps statement block))) fun _ =>
    .bind (g.discard_expectOr_keeps (by decide) _) fun _ => .bind leave_keeps fun _ =>
      .bind .get fun _ => .pure _

/-- A block, if one starts here; `inside` goes a level down and reads what is in it. -/
def blockOf (inside : ParseM (List Tree × Nat)) : ParseM (Option Tree) := do
  match ← g.accept .openCurly with
  | none => return none
  | some opening =>
    note (.entering opening.line)
    let (statements, symbols) ← inside
    note (.leaving opening.line symbols)
    return some (.block statements)

theorem blockOf_rest_keeps {inside : ParseM (List Tree × Nat)}
    (h : Keeps ParseState.remaining inside) (opening : Token) :
    Keeps ParseState.remaining (do
      note (.entering opening.line)
      let (statements, symbols) ← inside
      note (.leaving opening.line symbols)
      return some (.block statements) : ParseM (Option Tree)) :=
  .bind (note_keeps _) fun _ => .bind h fun _ => .bind (note_keeps _) fun _ => .pure _

theorem blockOf_keeps {inside : ParseM (List Tree × Nat)}
    (h : Keeps ParseState.remaining inside) : Keeps ParseState.remaining (g.blockOf inside) := by
  refine .bind (g.accept_keeps _) fun r => ?_
  split
  · exact .pure _
  · exact blockOf_rest_keeps h _

theorem blockOf_shrinks {inside : ParseM (List Tree × Nat)}
    (h : Keeps ParseState.remaining inside) :
    Shrinks ParseState.remaining (·.isSome = true) (g.blockOf inside) := by
  refine .bind (g.accept_keeps _) (g.accept_shrinks (by decide)) (fun r => ?_) fun r hr => ?_
  · split
    · exact .pure _
    · exact blockOf_rest_keeps h _
  · split
    · exact .pure (by simp)
    · exact absurd rfl hr

/-- Blocks as parts of a block, with room for so many levels. -/
def blockPart : Nat → Part
  | 0 => ⟨g.blockOf g.exceedDepth, g.blockOf_keeps g.exceedDepth_keeps,
      g.blockOf_shrinks g.exceedDepth_keeps⟩
  | room + 1 =>
    have h : Keeps ParseState.remaining (do
        deepen
        inNewScope (g.insideOf (g.statementPart room) (blockPart room))) :=
      .bind deepen_keeps fun _ => inNewScope_keeps (g.insideOf_keeps _ _)
    ⟨g.blockOf do
        deepen
        inNewScope (g.insideOf (g.statementPart room) (blockPart room)),
      g.blockOf_keeps h, g.blockOf_shrinks h⟩

/-- A block, if one starts here, with room for so many levels. -/
def blockIn (room : Nat) : ParseM (Option Tree) := (g.blockPart room).run

/-! ## Units -/

/-- A statement or a block, with room for so many levels. It leaves nothing in the tree if it is a
semicolon alone or a block without statements. -/
def unitIn (room : Nat) : ParseM (Option Tree) := do
  match ← g.statementIn room with
  | some statement => return keepStatement (some statement)
  | none =>
    match ← g.blockIn room with
    | some block => return keepBlock (some block)
    | none =>
      let token ← g.lookahead
      refuse (.unitExpected token.value) token.line

/-- A unit takes a token, also if it leaves nothing in the tree. -/
theorem unitIn_shrinks (room : Nat) :
    Shrinks ParseState.remaining (fun _ => True) (g.unitIn room) := by
  have hlast : Shrinks ParseState.remaining (fun _ => True)
      (do let token ← g.lookahead
          refuse (.unitExpected token.value) token.line : ParseM (Option Tree)) :=
    .bind_right g.lookahead_keeps fun _ => .throw _
  refine .bind (g.statementIn_keeps _) (g.statementIn_shrinks _) (fun r => ?_) fun r hr => ?_
  · split
    · exact .pure _
    · refine .bind (g.blockPart room).keeps fun r => ?_
      split
      · exact .pure _
      · exact hlast.keeps
  · split
    · exact absurd rfl hr
    · refine .bind (g.blockPart room).keeps (g.blockPart room).shrinks (fun r => ?_) fun r hr => ?_
      · split
        · exact .pure _
        · exact hlast.keeps
      · split
        · exact absurd rfl hr
        · exact hlast

/-! ## Rules at the present depth -/

/-- A declaration. -/
def declaration : ParseM Tree := do g.declarationIn (← g.room)

/-- A declaration or an expression. -/
def statement : ParseM (Option Tree) := do g.statementIn (← g.room)

/-- A block, if one starts here. -/
def block : ParseM (Option Tree) := do g.blockIn (← g.room)

/-- A statement or a block. -/
def topLevelUnit : ParseM (Option Tree) := do g.unitIn (← g.room)

end ExprLang.Grammar
