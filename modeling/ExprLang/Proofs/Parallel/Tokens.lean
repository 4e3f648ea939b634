import ExprLang.Grammar.Statement
import ExprLang.Proofs.Parallel.Runs
import ExprLang.Proofs.Tree.Alike

/-!
# Parses side by side: tokens and nesting

Two parses of sources whose tokens are alike go through the same steps. Where the nesting limit of
the first is the lower one, it may be cut off by it.

* `Twin`: grammars with the same rules, and what is related in their parses: lines, scanners, and
  the failures by which the first may be cut off.
* `Twin.Agree`: actions of the two parses go together from states that agree but for their depths.
* `Looks`: an action looks at the next token before all else. Such an action goes together with a
  parse that is cut off (`Twin.exceedDepth_cut`).
-/

namespace ExprLang.Grammar

/-- Two grammars with the same rules, and relations between their parses. -/
structure Twin (g g' : Grammar) where
  /-- Lines that correspond. -/
  lines : UInt32 → UInt32 → Prop
  /-- Scanners in front of the same lexemes. -/
  scanners : Scanner → Scanner → Prop
  /-- The failures by which the first parse may be cut off. -/
  tolerated : Failure → Prop
  vocabulary : g.vocabulary = g'.vocabulary
  declarators : g.declarators = g'.declarators
  operands : g.operands = g'.operands
  limit : g.maxDepth = g'.maxDepth ∨ g.maxDepth ≤ g'.maxDepth ∧
    ∀ line, tolerated (.refused ⟨.nestingTooDeep g.maxDepth, line⟩)
  next : Parallel scanners (Failure.Alike lines) tolerated (Scanner.next? g.vocabulary)
    (Scanner.next? g'.vocabulary) (Option.Rel (Token.Alike lines))
  line : ∀ s t, scanners s t → lines s.line t.line

namespace Twin

variable {g g' : Grammar} (T : Twin g g') {α β : Type} {Q : α → β → Prop}

/-! ## Token streams -/

/-- Streams in front of tokens that are alike. -/
structure Streams (s t : TokenStream) : Prop where
  scanners : T.scanners s.scanner t.scanner
  ahead : Option.Rel (Token.Alike T.lines) s.ahead t.ahead

theorem scan : Parallel T.Streams (Failure.Alike T.lines) T.tolerated
    (TokenStream.scan g.vocabulary) (TokenStream.scan g'.vocabulary) (Token.Alike T.lines) := by
  intro s t hst
  unfold TokenStream.scan
  match Scanner.next? g.vocabulary s.scanner, Scanner.next? g'.vocabulary t.scanner,
    T.next _ _ hst.scanners with
  | _, _, .ok .none behind => exact .ok ⟨rfl, rfl, T.line _ _ behind⟩ ⟨behind, hst.ahead⟩
  | _, _, .ok (.some same) behind => exact .ok same ⟨behind, hst.ahead⟩
  | _, _, .failed same => exact .failed same
  | _, _, .cut early => exact .cut early

theorem lookahead_stream : Parallel T.Streams (Failure.Alike T.lines) T.tolerated
    (TokenStream.lookahead g.vocabulary) (TokenStream.lookahead g'.vocabulary)
    (Token.Alike T.lines) := by
  intro s t hst
  unfold TokenStream.lookahead
  match s.ahead, t.ahead, hst.ahead with
  | _, _, .some same => exact .ok same hst
  | _, _, .none =>
    simp only
    match TokenStream.scan g.vocabulary s, TokenStream.scan g'.vocabulary t, T.scan s t hst with
    | _, _, .ok same behind => exact .ok same ⟨behind.scanners, .some same⟩
    | _, _, .failed same => exact .failed same
    | _, _, .cut early => exact .cut early

theorem consume_stream : Parallel T.Streams (Failure.Alike T.lines) T.tolerated
    (TokenStream.consume g.vocabulary) (TokenStream.consume g'.vocabulary)
    (Token.Alike T.lines) := by
  intro s t hst
  unfold TokenStream.consume
  match s.ahead, t.ahead, hst.ahead with
  | _, _, .some same => exact .ok same ⟨hst.scanners, .none⟩
  | _, _, .none => exact T.scan s t hst

/-! ## States -/

/-- States of the two parses that agree in all but their depths and journals. -/
structure Abreast (s t : ParseState) : Prop where
  tokens : T.Streams s.tokens t.tokens
  scopes : s.scopes = t.scopes
  previous : s.previous = t.previous

/-- Actions of the two parses that go together. -/
def Agree (x : ParseM α) (y : ParseM β) (Q : α → β → Prop) : Prop :=
  Parallel T.Abreast (Failure.Alike T.lines) T.tolerated x y Q

theorem refuse (cause : Cause) {l m : UInt32} (h : T.lines l m) :
    T.Agree (refuse cause l) (refuse cause m) Q :=
  Parallel.refuse (.refused ⟨rfl, h⟩)

theorem modify {f k : ParseState → ParseState} (h : ∀ s t, T.Abreast s t → T.Abreast (f s) (k t)) :
    T.Agree (modify f) (modify k) fun _ _ => True :=
  Parallel.modify h

theorem note (e e' : Event) : T.Agree (note e) (note e') fun _ _ => True :=
  T.modify fun _ _ hst => ⟨⟨hst.tokens.scanners, hst.tokens.ahead⟩, hst.scopes, hst.previous⟩

theorem deepen : T.Agree deepen deepen fun _ _ => True :=
  T.modify fun _ _ hst => ⟨hst.tokens, hst.scopes, hst.previous⟩

theorem leave : T.Agree leave leave fun _ _ => True :=
  T.modify fun _ _ hst => ⟨hst.tokens, hst.scopes, hst.previous⟩

theorem resetDepth : T.Agree resetDepth resetDepth fun _ _ => True :=
  T.modify fun _ _ hst => ⟨hst.tokens, hst.scopes, hst.previous⟩

theorem beginRound (left left' : Tree) (height height' : Nat) :
    T.Agree (beginRound left height) (beginRound left' height') fun _ _ => True :=
  T.modify fun _ _ hst => ⟨hst.tokens, hst.scopes, hst.previous⟩

/-! ## Tokens -/

theorem ofTokens {x : TokenM α} {y : TokenM β}
    (h : Parallel T.Streams (Failure.Alike T.lines) T.tolerated x y Q) :
    T.Agree (ofTokens x) (ofTokens y) Q := by
  intro s t hst
  unfold Grammar.ofTokens
  match x s.tokens, y t.tokens, h _ _ hst.tokens with
  | _, _, .ok values behind => exact .ok values ⟨behind, hst.scopes, hst.previous⟩
  | _, _, .failed same => exact .failed same
  | _, _, .cut early => exact .cut early

theorem lookahead : T.Agree g.lookahead g'.lookahead (Token.Alike T.lines) :=
  T.ofTokens T.lookahead_stream

theorem currentKind : T.Agree g.currentKind g'.currentKind Eq :=
  T.lookahead.map fun _ _ h => h.kind

theorem currentLine : T.Agree g.currentLine g'.currentLine T.lines :=
  T.lookahead.map fun _ _ h => h.line

theorem consume : T.Agree g.consume g'.consume (Token.Alike T.lines) :=
  .bind (T.ofTokens T.consume_stream) fun _ _ h =>
    .bind (T.modify fun _ _ hst => ⟨hst.tokens, hst.scopes, h.value⟩) fun _ _ _ => .pure h

theorem accept (kind : Kind) :
    T.Agree (g.accept kind) (g'.accept kind) (Option.Rel (Token.Alike T.lines)) := by
  refine .bind T.currentKind ?_
  rintro kind' _ rfl
  exact .ite Iff.rfl (fun _ => .bind T.consume fun _ _ h => .pure (.some h)) fun _ => .pure .none

theorem expectWith (kind : Kind) {cause : Token → Cause}
    (hcause : ∀ a b, a.value = b.value → cause a = cause b) :
    T.Agree (g.expectWith kind cause) (g'.expectWith kind cause) (Token.Alike T.lines) := by
  refine .bind T.lookahead fun a b h => .ite (by rw [h.kind]) (fun _ => T.consume) fun _ => ?_
  rw [hcause a b h.value]
  exact .bind (T.note _ _) fun _ _ _ => T.refuse _ h.line

theorem expectOr (kind : Kind) (cause : Cause) :
    T.Agree (g.expectOr kind cause) (g'.expectOr kind cause) (Token.Alike T.lines) :=
  T.expectWith kind fun _ _ _ => rfl

end Twin

/-! ## Actions that start with a look -/

/-- The action fails if there is no next token to look at. -/
def Looks {α : Type} (g : Grammar) (x : ParseM α) : Prop :=
  ∀ s e t, g.lookahead s = .error e t → ∃ u, x s = .error e u

namespace Looks

variable {g : Grammar} {α β : Type}

theorem lookahead : Looks g g.lookahead := fun _ _ t h => ⟨t, h⟩

theorem bind {x : ParseM α} (hx : Looks g x) (f : α → ParseM β) : Looks g (x >>= f) := by
  intro s e t h
  obtain ⟨u, hu⟩ := hx s e t h
  exact ⟨u, by simp only [Bind.bind, EStateM.bind, hu]⟩

theorem map {x : ParseM α} (hx : Looks g x) (f : α → β) : Looks g (f <$> x) := by
  intro s e t h
  obtain ⟨u, hu⟩ := hx s e t h
  exact ⟨u, by simp only [Functor.map, EStateM.map, hu]⟩

/-- A look depends on nothing but the tokens. -/
theorem of_tokens {x : ParseM α} (hx : Looks g x) {s t : ParseState} {e : Failure}
    (h : g.lookahead s = .error e t) (s' : ParseState) (hs : s'.tokens = s.tokens) :
    ∃ u, x s' = .error e u := by
  refine hx s' e { s' with tokens := t.tokens } ?_
  unfold Grammar.lookahead ofTokens at h ⊢
  rw [hs]
  split at h
  · cases h
  · cases h
    rfl

theorem deepen {x : ParseM α} (hx : Looks g x) : Looks g (do deepen; x) :=
  fun s _ _ h => hx.of_tokens h (s.atDepth (s.depth + 1)) rfl

theorem inNewScope {x : ParseM α} (hx : Looks g x) : Looks g (inNewScope x) := by
  intro s e t h
  obtain ⟨u, hu⟩ := hx.of_tokens h { s with scopes := s.scopes.push } rfl
  exact ⟨{ u with scopes := u.scopes.pop }, by simp only [Grammar.inNewScope, hu]⟩

theorem collect {size : ParseState → Nat} {step : ParseM (Option α)}
    {shrinks : Shrinks size (·.isSome = true) step} (h : Looks g step) :
    Looks g (collect size step shrinks) := by
  intro s e t hs
  obtain ⟨u, hu⟩ := h s e t hs
  exact ⟨u, by rw [ExprLang.collect, Parallel.collectFrom_eq, hu]⟩

theorem currentKind : Looks g g.currentKind := .map .lookahead _

end Looks

theorem looks_exceedDepth (g : Grammar) {α : Type} : Looks g (g.exceedDepth : ParseM α) :=
  .deepen (.bind (.map .lookahead _) _)

namespace Twin

variable {g g' : Grammar} (T : Twin g g') {α β : Type} {Q : α → β → Prop}

/-! ## Nesting -/

/-- Being cut off by the nesting limit is tolerated. -/
def Cuts : Prop := ∀ line, T.tolerated (.refused ⟨.nestingTooDeep g.maxDepth, line⟩)

/-- The first parse may be cut off in front of anything that looks at the next token. -/
theorem exceedDepth_cut (hcut : T.Cuts) {y : ParseM β} (hy : Looks g' y) :
    T.Agree (g.exceedDepth : ParseM α) y Q := by
  intro s t hst
  have hl := T.lookahead (s.atDepth (s.depth + 1)) t ⟨hst.tokens, hst.scopes, hst.previous⟩
  change Matching _ _ _ _ ((do
    let line ← g.currentLine
    Grammar.note (.tooDeep g.maxDepth line)
    ExprLang.refuse (.nestingTooDeep g.maxDepth) line : ParseM α) (s.atDepth (s.depth + 1))) _
  simp only [Grammar.currentLine, Functor.map, EStateM.map, Bind.bind, EStateM.bind]
  match g.lookahead (s.atDepth (s.depth + 1)), hr : g'.lookahead t, hl with
  | _, _, .ok same behind => exact .cut (hcut _)
  | _, _, .failed same =>
    obtain ⟨u, hu⟩ := hy _ _ _ hr
    exact hu ▸ .failed same
  | _, _, .cut early => exact .cut early

theorem exceedDepth : T.Agree (g.exceedDepth : ParseM α) (g'.exceedDepth : ParseM β) Q := by
  rcases T.limit with h | ⟨-, hcut⟩
  · refine .bind T.deepen fun _ _ _ => .bind T.currentLine fun l m hlm => ?_
    rw [h]
    exact .bind (T.note _ _) fun _ _ _ => T.refuse _ hlm
  · exact T.exceedDepth_cut hcut g'.looks_exceedDepth

theorem exceedHeight_cut (hcut : T.Cuts) (line : UInt32) (y : ParseM β) :
    T.Agree (g.exceedHeight line : ParseM α) y Q :=
  fun _ _ _ => .cut (hcut _)

theorem exceedHeight_same (hg : g.maxDepth = g'.maxDepth) {l m : UInt32} (h : T.lines l m) :
    T.Agree (g.exceedHeight l : ParseM α) (g'.exceedHeight m : ParseM β) Q := by
  refine .bind (T.note _ _) fun _ _ _ => ?_
  rw [hg]
  exact T.refuse _ h

/-- The room below the two nesting limits: the same, or less where being cut off is tolerated. -/
inductive Rooms : Nat → Nat → Prop
  | same (h : g.maxDepth = g'.maxDepth) (room : Nat) : Rooms room room
  | fewer {room room' : Nat} (hcut : T.Cuts) (h : room ≤ room') : Rooms room room'

theorem Rooms.pred {room room' : Nat} (h : T.Rooms (room + 1) (room' + 1)) :
    T.Rooms room room' := by
  cases h with
  | same h => exact .same h room
  | fewer hcut h => exact .fewer hcut (Nat.le_of_succ_le_succ h)

theorem rooms : T.Rooms g.maxDepth g'.maxDepth := by
  rcases T.limit with h | ⟨h, hcut⟩
  · rw [← h]
    exact .same h _
  · exact .fewer hcut h

end Twin

end ExprLang.Grammar
