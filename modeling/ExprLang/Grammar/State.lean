import ExprLang.Progress
import ExprLang.Scope
import ExprLang.Token.Stream
import ExprLang.Tree
import ExprLang.Typing.Table

/-!
# Parsing: settings, state and steps

A `Grammar` is what a parse is set up with and does not change while it runs: vocabulary, typing
table, nesting limit, the kinds that start a declaration, and the rule for each kind that starts an
operand. A `ParseState` is what does change. The steps of this module are those that the grammar
rules are made of: looking at and taking tokens, and keeping count of the nesting.

Nesting is counted by `deepen` and `leave`. A rule that is about to go one level down while the
limit is reached fails by `exceedDepth`; the count then stays one too high.

The state has a `Trail` besides, for what is said about a parse: no step reads it.
-/

namespace ExprLang

/-- How an operand that starts with some kind of token is read. -/
inductive OperandRule where
  /-- The token is a literal. -/
  | literal
  /-- The token is the name of a variable or constant. -/
  | symbol
  /-- The token opens an expression in parentheses. -/
  | grouping
  deriving DecidableEq

/-- The settings of a parse. -/
structure Grammar where
  vocabulary : Vocabulary
  typing : TypingTable
  /-- How deep operators, parentheses and blocks may be nested. -/
  maxDepth : Nat
  /-- The kinds that start a declaration. -/
  declarators : List Kind
  /-- How an operand is read, by the kind of its first token. -/
  operands : Table Kind OperandRule

/-- The head of a round of climbing: the expression read so far, and its height as it is tracked. -/
structure Round where
  left : Tree
  height : Nat

/-- What a parse has come through, the latest first. -/
structure Trail where
  /-- The depths that have been counted. -/
  levels : List Nat
  /-- The rounds that have begun. -/
  rounds : List Round

/-- The state of a parse. -/
structure ParseState where
  tokens : TokenStream
  scopes : Scopes
  /-- The number of levels of nesting that have been entered. -/
  depth : Nat
  /-- The lexeme of the token taken last. -/
  previous : String
  trail : Trail

/-- A parsing action; a failure keeps the state where it left it. -/
abbrev ParseM := EStateM Failure ParseState

namespace ParseState

/-- The state at the start of a source. -/
def ofSource (s : Source) : ParseState := ⟨.ofSource s, .root, 0, "", ⟨[], []⟩⟩

/-- An upper bound on the tokens left. -/
def remaining (s : ParseState) : Nat := s.tokens.remaining

/-- Enters an event in the journal. -/
def note (e : Event) (s : ParseState) : ParseState := { s with tokens := s.tokens.note e }

/-- The state at another depth, which enters the trail. -/
def atDepth (depth : Nat) (s : ParseState) : ParseState :=
  { s with depth := depth, trail := { s.trail with levels := depth :: s.trail.levels } }

@[simp] theorem atDepth_depth (depth : Nat) (s : ParseState) : (s.atDepth depth).depth = depth :=
  rfl

@[simp] theorem atDepth_scopes (depth : Nat) (s : ParseState) :
    (s.atDepth depth).scopes = s.scopes := rfl

/-- Enters the head of a round in the trail. -/
def inRound (round : Round) (s : ParseState) : ParseState :=
  { s with trail := { s.trail with rounds := round :: s.trail.rounds } }

/-- The state behind a token that was kept ahead. -/
def behind (s : ParseState) (token : Token) : ParseState :=
  { s with tokens := { s.tokens with ahead := none }, previous := token.value }

end ParseState

namespace Grammar

/-- The nesting limit of a parse that sets none. -/
def defaultMaxDepth : Nat := 256

/-- The kinds that start a declaration in the standard language. -/
def standardDeclarators : List Kind := [.varDecl, .constDecl]

/-- How operands are read in the standard language. -/
def standardOperands : Table Kind OperandRule :=
  .ofList [(.intLiteral, .literal), (.floatLiteral, .literal), (.boolLiteral, .literal),
    (.identifier, .symbol), (.openParen, .grouping)]

/-- The grammar of a vocabulary and a typing table, with the standard rules. -/
def standard (vocabulary : Vocabulary) (typing : TypingTable) (maxDepth : Nat) : Grammar :=
  ⟨vocabulary, typing, maxDepth, standardDeclarators, standardOperands⟩

/-- The grammar without rules for declarations and operands. -/
def withoutRules (g : Grammar) : Grammar := { g with declarators := [], operands := .empty }

/-- Enters an event in the journal. -/
def note (e : Event) : ParseM Unit := modify (·.note e)

variable (g : Grammar)

/-! ## Tokens -/

/-- Performs a token action. -/
def ofTokens {α : Type} (action : TokenM α) : ParseM α := fun s =>
  match action s.tokens with
  | .ok a t => .ok a { s with tokens := t }
  | .error e t => .error e { s with tokens := t }

/-- The next token, left in place. -/
def lookahead : ParseM Token := ofTokens (TokenStream.lookahead g.vocabulary)

/-- The kind of the next token. -/
def currentKind : ParseM Kind := Token.kind <$> g.lookahead

/-- The line of the next token. -/
def currentLine : ParseM UInt32 := Token.line <$> g.lookahead

/-- The next token, taken. -/
def consume : ParseM Token := do
  let token ← ofTokens (TokenStream.consume g.vocabulary)
  modify fun s => { s with previous := token.value }
  return token

/-- Takes the next token if it is of the given kind. -/
def accept (kind : Kind) : ParseM (Option Token) := do
  if (← g.currentKind) = kind then return some (← g.consume)
  else return none

/-- Takes the next token, which has to be of the given kind; `cause` says why any other is
refused. -/
def expectWith (kind : Kind) (cause : Token → Cause) : ParseM Token := do
  let token ← g.lookahead
  if token.kind = kind then g.consume
  else
    note (.expected kind token.line (cause token))
    refuse (cause token) token.line

/-- Takes the next token, which has to be of the given kind, or fails with `cause`. -/
def expectOr (kind : Kind) (cause : Cause) : ParseM Token := g.expectWith kind fun _ => cause

/-- Takes the next token, which has to be of the given kind. -/
def expect (kind : Kind) : ParseM Token :=
  g.expectWith kind fun token => .unexpectedToken token.value

/-! ## Nesting -/

/-- How many levels are left above the limit. -/
def room : ParseM Nat := do return g.maxDepth - (← get).depth

/-- Counts one level down. -/
def deepen : ParseM Unit := modify fun s => s.atDepth (s.depth + 1)

/-- Counts one level up; not beyond the outermost. -/
def leave : ParseM Unit := modify fun s => s.atDepth (s.depth - 1)

/-- Counts from the outermost level again. -/
def resetDepth : ParseM Unit := modify (·.atDepth 0)

/-- Begins a round of climbing. -/
def beginRound (left : Tree) (height : Nat) : ParseM Unit := modify (·.inRound ⟨left, height⟩)

/-- Counts one level down, which is one too many, and fails. -/
def exceedDepth {α : Type} : ParseM α := do
  deepen
  let line ← g.currentLine
  note (.tooDeep g.maxDepth line)
  refuse (.nestingTooDeep g.maxDepth) line

/-- Goes one level down if the limit allows it. -/
def enter : ParseM Unit := do
  if (← g.room) = 0 then g.exceedDepth else deepen

/-- Fails because an expression grew taller than the limit. -/
def exceedHeight {α : Type} (line : UInt32) : ParseM α := do
  note (.tooTall g.maxDepth line)
  refuse (.nestingTooDeep g.maxDepth) line

/-- Fails if an expression is taller than the limit. -/
def limitHeight (height : Nat) (line : UInt32) : ParseM Unit :=
  if g.maxDepth < height then g.exceedHeight line else pure ()

/-! ## Progress -/

theorem note_keeps (e : Event) : Keeps ParseState.remaining (note e) := .modify fun _ => rfl

theorem deepen_keeps : Keeps ParseState.remaining deepen := .modify fun _ => rfl

theorem leave_keeps : Keeps ParseState.remaining leave := .modify fun _ => rfl

theorem resetDepth_keeps : Keeps ParseState.remaining resetDepth := .modify fun _ => rfl

theorem beginRound_keeps (left : Tree) (height : Nat) :
    Keeps ParseState.remaining (beginRound left height) := .modify fun _ => rfl

theorem refuse_keeps {α : Type} (cause : Cause) (line : UInt32) :
    Keeps ParseState.remaining (refuse cause line : ParseM α) := .throw _

theorem ofTokens_eq_ok {α : Type} {action : TokenM α} {s t : ParseState} {a : α}
    (h : ofTokens action s = .ok a t) :
    ∃ u, action s.tokens = .ok a u ∧ t = { s with tokens := u } := by
  simp only [ofTokens] at h
  split at h
  · next u hu =>
    cases h
    exact ⟨u, hu, rfl⟩
  · cases h

theorem ofTokens_keeps {α : Type} {action : TokenM α} (h : Keeps TokenStream.remaining action) :
    Keeps ParseState.remaining (ofTokens action) := by
  intro s a t hs
  obtain ⟨u, hu, rfl⟩ := ofTokens_eq_ok hs
  exact h _ _ _ hu

theorem lookahead_keeps : Keeps ParseState.remaining g.lookahead :=
  ofTokens_keeps (TokenStream.lookahead_keeps _)

theorem currentKind_keeps : Keeps ParseState.remaining g.currentKind := .map _ g.lookahead_keeps

theorem currentLine_keeps : Keeps ParseState.remaining g.currentLine := .map _ g.lookahead_keeps

theorem consume_keeps : Keeps ParseState.remaining g.consume :=
  .bind (ofTokens_keeps (TokenStream.consume_keeps _)) fun _ =>
    .bind (.modify fun _ => rfl) fun _ => .pure _

theorem ahead_of_lookahead {s t : ParseState} {token : Token} (h : g.lookahead s = .ok token t) :
    t.tokens.ahead = some token := by
  obtain ⟨u, hu, rfl⟩ := ofTokens_eq_ok h
  exact (TokenStream.lookahead_eq_ok hu).1

theorem consume_of_ahead {s : ParseState} {token : Token} (h : s.tokens.ahead = some token) :
    g.consume s = .ok token (s.behind token) := by
  have hc : ofTokens (TokenStream.consume g.vocabulary) s =
      .ok token { s with tokens := { s.tokens with ahead := none } } := by
    simp only [ofTokens, TokenStream.consume_of_ahead h]
  simp only [consume, bind, EStateM.bind, hc]
  rfl

theorem remaining_behind_lt {s : ParseState} {token : Token} (h : s.tokens.ahead = some token)
    (hk : token.kind ≠ .eof) : (s.behind token).remaining < s.remaining := by
  simp [ParseState.remaining, ParseState.behind, TokenStream.remaining, h, hk]

theorem consume_shrinks_of_ahead {s t : ParseState} {token found : Token}
    (h : s.tokens.ahead = some token) (hk : token.kind ≠ .eof) (hc : g.consume s = .ok found t) :
    t.remaining < s.remaining := by
  rw [consume_of_ahead g h] at hc
  cases hc
  exact remaining_behind_lt h hk

theorem accept_keeps (kind : Kind) : Keeps ParseState.remaining (g.accept kind) := by
  refine .bind g.currentKind_keeps fun k => ?_
  split
  · exact .bind g.consume_keeps fun _ => .pure _
  · exact .pure _

theorem accept_shrinks {kind : Kind} (hk : kind ≠ .eof) :
    Shrinks ParseState.remaining (·.isSome = true) (g.accept kind) := by
  intro s r u h hr
  obtain ⟨k, t, hl, h⟩ := bind_eq_ok_iff.mp h
  have hle := g.currentKind_keeps _ _ _ hl
  obtain ⟨token, ht, rfl⟩ := map_eq_ok_iff.mp hl
  split at h
  · next he =>
    obtain ⟨found, t', hc, h⟩ := bind_eq_ok_iff.mp h
    obtain ⟨rfl, rfl⟩ := pure_eq_ok_iff.mp h
    exact Nat.lt_of_lt_of_le
      (consume_shrinks_of_ahead g (ahead_of_lookahead g ht) (he ▸ hk) hc) hle
  · rw [← (pure_eq_ok_iff.mp h).1] at hr
    cases hr

theorem expectWith_shrinks {kind : Kind} (hk : kind ≠ .eof) (cause : Token → Cause) :
    Shrinks ParseState.remaining (fun _ => True) (g.expectWith kind cause) := by
  intro s r u h _
  obtain ⟨token, t, hl, h⟩ := bind_eq_ok_iff.mp h
  have hle := g.lookahead_keeps _ _ _ hl
  split at h
  · next ht =>
    exact Nat.lt_of_lt_of_le
      (consume_shrinks_of_ahead g (ahead_of_lookahead g hl) (ht ▸ hk) h) hle
  · obtain ⟨_, _, _, h⟩ := bind_eq_ok_iff.mp h
    exact absurd h throw_ne_ok

theorem expectOr_shrinks {kind : Kind} (hk : kind ≠ .eof) (cause : Cause) :
    Shrinks ParseState.remaining (fun _ => True) (g.expectOr kind cause) :=
  g.expectWith_shrinks hk _

theorem exceedDepth_keeps {α : Type} :
    Keeps ParseState.remaining (g.exceedDepth : ParseM α) :=
  .bind deepen_keeps fun _ => .bind g.currentLine_keeps fun _ =>
    .bind (note_keeps _) fun _ => refuse_keeps _ _

theorem exceedHeight_keeps {α : Type} (line : UInt32) :
    Keeps ParseState.remaining (g.exceedHeight line : ParseM α) :=
  .bind (note_keeps _) fun _ => refuse_keeps _ _

theorem room_keeps : Keeps ParseState.remaining g.room := .bind .get fun _ => .pure _

end Grammar

end ExprLang
