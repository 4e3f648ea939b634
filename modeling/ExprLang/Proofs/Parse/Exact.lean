import ExprLang.Proofs.Language.Sound
import ExprLang.Proofs.Parse.Delivers

/-!
# What is accepted, exactly

With the standard rules, `Forms` is not only read off accepted programs: whatever it says of the
tokens of a source, the parser does.

* `Chain`: passages that the rules deliver, one after the other.
* `Forms.delivers`: statements, blocks and sequences of them.
* **`parse_of_forms`**: a source whose tokens form a program is accepted with its trees.
-/

namespace ExprLang.Grammar

variable {g : Grammar} {last : Token} {α : Type}

/-! ## Repetition -/

section

variable {size : ParseState → Nat} {step : ParseM (Option α)}
  {shrinks : Shrinks size (·.isSome = true) step} {p q r : Place} {found all : List α}

theorem delivers_collectFrom_some {a : α} (h : Delivers g last step p (some a) q)
    (h' : Delivers g last (collectFrom size step shrinks (a :: found)) q all r) :
    Delivers g last (collectFrom size step shrinks found) p all r := by
  intro s hs hscopes
  obtain ⟨t, ht, hb, hts⟩ := h s hs hscopes
  obtain ⟨u, hu, hr⟩ := h' t hb hts
  refine ⟨u, ?_, hr⟩
  rw [collectFrom, ← hu]
  split <;> simp_all

theorem delivers_collectFrom_none (h : Delivers g last step p none q) :
    Delivers g last (collectFrom size step shrinks found) p found.reverse q := by
  intro s hs hscopes
  obtain ⟨t, ht, hb⟩ := h s hs hscopes
  refine ⟨t, ?_, hb⟩
  rw [collectFrom]
  split <;> simp_all

end

/-! ## Statements -/

theorem delivers_typed {tree checked : Tree} {p : Place}
    (h : tree.check g.typing = ⟨checked, none⟩) : Delivers g last (g.typed tree) p checked p := by
  unfold typed
  rw [h]
  exact .pure

theorem delivers_expressionIn {scopes : Scopes} {room : Nat} {tokens rest : List Token}
    {token : Token} {tree checked : Tree}
    (h : Reads g scopes (.binding none false) room tokens token tree)
    (mark : token.kind = .semicolon) (typed : tree.check g.typing = ⟨checked, none⟩) :
    Delivers g last (g.expressionIn room) ⟨tokens ++ token :: rest, scopes⟩ (some checked)
      ⟨rest, scopes⟩ := by
  refine .bind (h.delivers (token :: rest) rfl) ?_
  exact .bind (delivers_discard_expectOr mark) (.map (delivers_typed typed))

/-- The kinds that neither start an operand nor may stand for one. -/
def stopKinds : List Kind := [.semicolon, .openCurly, .closeCurly]

theorem delivers_bindingIn_stop (hg : g.IsStandard) {p : Place}
    (hk : (firstOf p.tokens last).kind ∈ stopKinds) (room : Nat) :
    Delivers g last (g.bindingIn (room + 1) none false) p none p := by
  have hkinds : ∀ k ∈ stopKinds, k ∉ signKinds ∧ k ∉ infixKinds ∧ k ∉ literalKinds ∧
      k ≠ .identifier ∧ k ≠ .openParen ∧ k ≠ .closeParen := by decide
  obtain ⟨hsign, hinfix, hliteral, hname, hopen, hclose⟩ := hkinds _ hk
  have hnone : ∀ group : ParseM Tree, Delivers g last (g.trailedOf group) p none p := by
    intro group
    refine .bind (a := none) (q := p) (.bind delivers_currentKind ?_) .pure
    rw [hg.positions.rule_eq, if_neg hliteral, if_neg hname, if_neg hopen]
    exact .pure
  have hsigned : Delivers g last (g.signedIn room) p none p := by
    cases room <;> rw [signedIn] <;> refine .bind delivers_currentKind ?_ <;>
      rw [hg.positions.isBefore, decide_eq_false hsign] <;> exact hnone _
  have hinstead : g.insteadOfOperand false (firstOf p.tokens last) = none := by
    unfold insteadOfOperand
    rw [if_neg fun h => hclose h.1, hg.positions.isBetween, decide_eq_false hinfix]
    rfl
  unfold bindingIn
  refine .bind delivers_deepen (.bind hsigned (.bind delivers_lookahead ?_))
  rw [hinstead]
  exact .bind delivers_leave .pure

theorem delivers_expressionIn_semicolon (hg : g.IsStandard) {scopes : Scopes} {room : Nat}
    {token : Token} {rest : List Token} (mark : token.kind = .semicolon) :
    Delivers g last (g.expressionIn (room + 1)) ⟨token :: rest, scopes⟩ (some .empty)
      ⟨rest, scopes⟩ := by
  refine .bind (delivers_bindingIn_stop hg ?_ room) (.bind (delivers_accept mark) .pure)
  rw [firstOf_cons, mark]
  decide

theorem contains_declarators (hg : g.IsStandard) (kind : Kind) :
    g.declarators.contains kind = true ↔ kind ∈ declaratorKinds := by
  rw [List.contains_iff_mem, hg.mem_declarators]

theorem delivers_statementIn_brace (hg : g.IsStandard) {p : Place}
    (hk : (firstOf p.tokens last).kind ∈ [.openCurly, .closeCurly]) (room : Nat) :
    Delivers g last (g.statementIn (room + 1)) p none p := by
  refine .bind delivers_currentKind ?_
  rw [if_neg fun h => absurd ((contains_declarators hg _).mp h) ?_]
  · refine .bind (delivers_bindingIn_stop hg (List.mem_cons_of_mem _ hk) room) ?_
    refine .bind (delivers_accept_other ?_) .pure
    exact (by decide : ∀ k ∈ [Kind.openCurly, .closeCurly], k ≠ .semicolon) _ hk
  · exact (by decide : ∀ k ∈ [Kind.openCurly, .closeCurly], k ∉ declaratorKinds) _ hk

theorem delivers_typeClause {scopes : Scopes} {clause rest : List Token} {type : Option DataType}
    (h : Clause g clause type) (hk : (firstOf rest last).kind ≠ .colon) :
    Delivers g last g.typeClause ⟨clause ++ rest, scopes⟩ type ⟨rest, scopes⟩ := by
  cases h with
  | absent => exact .bind (delivers_accept_other hk) .pure
  | present mark named known =>
    refine .bind (delivers_accept mark) (.bind (delivers_expectOr named) ?_)
    rw [known]
    exact .pure

theorem delivers_declare {scopes behind : Scopes} {symbol : Symbol} {line : UInt32}
    {tokens : List Token} (h : scopes.declare? symbol = some behind) :
    Delivers g last (declare symbol line) ⟨tokens, scopes⟩ () ⟨tokens, behind⟩ := by
  refine delivers_get fun s hs => ?_
  unfold Scopes.declare
  rw [hs, h]
  exact delivers_modify (p := ⟨tokens, scopes⟩) (fun _ => rfl) fun _ _ => rfl

theorem delivers_resolve {id : String} {type : DataType} {scopes : Scopes} {tokens : List Token} :
    Delivers g last (resolve id type) ⟨tokens, scopes⟩ () ⟨tokens, scopes.resolve id type⟩ := by
  refine delivers_modify (p := ⟨tokens, scopes⟩) (fun _ => rfl) fun s hs => ?_
  rw [hs]

theorem delivers_declared {room : Nat} {scopes behind : Scopes} {keyword name token : Token}
    {clause rest : List Token} {type : DataType} (named : name.kind = .identifier)
    (annotated : Clause g clause (some type))
    (fresh : scopes.declare? ⟨name.value, keyword.kind == .varDecl, some type⟩ = some behind)
    (mark : token.kind = .semicolon) :
    Delivers g last (g.declarationIn room)
      ⟨keyword :: name :: (clause ++ token :: rest), scopes⟩
      (.declaration name (some type) (keyword.kind == .varDecl)) ⟨rest, behind⟩ := by
  have hk : (firstOf (token :: rest) last).kind ≠ .colon ∧
      (firstOf (token :: rest) last).kind ≠ .assignment := by
    rw [firstOf_cons, mark]
    decide
  refine .bind delivers_consume (.bind (delivers_expectOr named) ?_)
  refine .bind (delivers_typeClause annotated hk.1) (.bind delivers_note ?_)
  refine .bind (delivers_declare fresh) (.bind (delivers_accept_other hk.2) ?_)
  exact .bind (delivers_discard_expectOr mark) .pure

theorem delivers_initialized {room : Nat} {scopes inner : Scopes}
    {keyword name operator token : Token} {clause tokens rest : List Token}
    {declared : Option DataType} {type : DataType} {tree value : Tree}
    (named : name.kind = .identifier) (annotated : Clause g clause declared)
    (fresh : scopes.declare? ⟨name.value, keyword.kind == .varDecl, declared⟩ = some inner)
    (equals : operator.kind = .assignment)
    (content : Reads g inner (.binding none false) room tokens token tree)
    (mark : token.kind = .semicolon) (typed : tree.check g.typing = ⟨value, none⟩)
    (unified : unify declared value.type? operator.line = .ok type) :
    Delivers g last (g.declarationIn room)
      ⟨keyword :: name :: (clause ++ operator :: (tokens ++ token :: rest)), scopes⟩
      (.assignment operator (some type)
        (.declaration name (some type) (keyword.kind == .varDecl)) value)
      ⟨rest, inner.resolve name.value type⟩ := by
  have hk : (firstOf (operator :: (tokens ++ token :: rest)) last).kind ≠ .colon := by
    rw [firstOf_cons, equals]
    decide
  have hempty := (content.resolved_checked typed).isEmpty_eq_false
  refine .bind delivers_consume (.bind (delivers_expectOr named) ?_)
  refine .bind (delivers_typeClause annotated hk) (.bind delivers_note ?_)
  refine .bind (delivers_declare fresh) (.bind (delivers_accept equals) ?_)
  refine .bind (a := value) (q := ⟨rest, inner⟩)
    (.bind (delivers_expressionIn content mark typed) ?_) ?_
  · simp only [hempty, Bool.false_eq_true, if_false]
    exact .pure
  · rw [unified]
    exact .bind delivers_resolve .pure

/-! ## Blocks -/

theorem delivers_inNewScope {x : ParseM α} {scopes behind : Scopes} {tokens rest : List Token}
    {a : α} (h : Delivers g last x ⟨tokens, scopes.push⟩ a ⟨rest, behind⟩) :
    Delivers g last (inNewScope x) ⟨tokens, scopes⟩ a ⟨rest, behind.pop⟩ := by
  intro s hs hscopes
  obtain ⟨t, ht, hb, hts⟩ := h { s with scopes := s.scopes.push } hs (congrArg Scopes.push hscopes)
  refine ⟨{ t with scopes := t.scopes.pop }, ?_, hb, congrArg Scopes.pop hts⟩
  unfold inNewScope
  rw [ht]

/-- `Chain g last room rest before tokens trees behind`: with room for so many levels, the rules
deliver statements and blocks from `tokens` up to `rest`. -/
inductive Chain (g : Grammar) (last : Token) (room : Nat) (rest : List Token) :
    Scopes → List Token → List Tree → Scopes → Prop
  | nil {scopes : Scopes} : Chain g last room rest scopes rest [] scopes
  | statement {before mid behind : Scopes} {tokens others : List Token} {tree : Tree}
      {trees : List Tree} (first : (firstOf tokens last).kind ∉ [.openCurly, .eof])
      (single : Delivers g last (g.statementIn room) ⟨tokens, before⟩ (some tree) ⟨others, mid⟩)
      (more : Chain g last room rest mid others trees behind) :
      Chain g last room rest before tokens ((keepStatement (some tree)).toList ++ trees) behind
  | block {before mid behind : Scopes} {tokens others : List Token} {tree : Tree}
      {trees : List Tree} (deep : 0 < room) (first : (firstOf tokens last).kind = .openCurly)
      (single : Delivers g last (g.blockPart room).run ⟨tokens, before⟩ (some tree) ⟨others, mid⟩)
      (more : Chain g last room rest mid others trees behind) :
      Chain g last room rest before tokens ((keepBlock (some tree)).toList ++ trees) behind

theorem delivers_blockPart_other {p : Place} (hk : (firstOf p.tokens last).kind ≠ .openCurly)
    (room : Nat) : Delivers g last (g.blockPart room).run p none p := by
  cases room <;> exact .bind (delivers_accept_other hk) .pure

/-- The rounds inside a block, from here on. -/
def BodyDelivers (g : Grammar) (last : Token) (room : Nat) (p q : Place) (trees : List Tree) :
    Prop :=
  ∀ found, ∃ all, Delivers g last
    (collectFrom ParseState.remaining (bodyStep (g.statementPart room) (g.blockPart room))
      (bodyStep_shrinks _ _) found) p (found.reverse ++ all) q ∧ all.flatten = trees

theorem bodyDelivers_step {room : Nat} {p mid next q : Place} {s b : Option Tree}
    {trees : List Tree} (hs : Delivers g last (g.statementIn room) p s mid)
    (hb : Delivers g last (g.blockPart room).run mid b next)
    (hsome : (s.isNone && b.isNone) = false)
    (h : BodyDelivers g last room next q trees) :
    BodyDelivers g last room p q ((keepStatement s).toList ++ ((keepBlock b).toList ++ trees)) := by
  intro found
  obtain ⟨all, hall, rfl⟩ := h (((keepStatement s).toList ++ (keepBlock b).toList) :: found)
  refine ⟨((keepStatement s).toList ++ (keepBlock b).toList) :: all, ?_, ?_⟩
  · rw [List.reverse_cons, List.append_assoc] at hall
    refine delivers_collectFrom_some (.bind hs (.bind hb ?_)) hall
    rw [hsome]
    exact .pure
  · rw [List.flatten_cons, List.append_assoc]

/-- The rounds inside a block deliver what a chain does. A round takes a statement and the block
behind it together, so that the induction also says what the second half of a round does. -/
theorem Chain.body (hg : g.IsStandard) {room : Nat} {before behind : Scopes}
    {rest tokens : List Token} {trees : List Tree}
    (hend : (firstOf rest last).kind = .closeCurly)
    (h : Chain g last (room + 1) rest before tokens trees behind) :
    BodyDelivers g last (room + 1) ⟨tokens, before⟩ ⟨rest, behind⟩ trees ∧
      ∃ b next vs, Delivers g last (g.blockPart (room + 1)).run ⟨tokens, before⟩ b next ∧
        BodyDelivers g last (room + 1) next ⟨rest, behind⟩ vs ∧
          (keepBlock b).toList ++ vs = trees := by
  induction h with
  | nil =>
    have hb : ∀ p : Place, p.tokens = rest →
        Delivers g last (g.blockPart (room + 1)).run p none p := by
      rintro p rfl
      exact delivers_blockPart_other (by rw [hend]; decide) _
    have hs : ∀ p : Place, p.tokens = rest →
        Delivers g last (g.statementIn (room + 1)) p none p := by
      rintro p rfl
      exact delivers_statementIn_brace hg (by rw [hend]; decide) room
    refine (fun hbody => ⟨hbody, none, _, [], hb _ rfl, hbody, rfl⟩) fun found => ⟨[], ?_, rfl⟩
    rw [List.append_nil]
    exact delivers_collectFrom_none (.bind (hs _ rfl) (.bind (hb _ rfl) .pure))
  | statement first single _ ih =>
    -- a block behind the statement belongs to the same round
    obtain ⟨-, b, next, vs, hb, hvs, rfl⟩ := ih
    have hbody := bodyDelivers_step single hb rfl hvs
    refine ⟨hbody, none, _, _, delivers_blockPart_other ?_ _, hbody, rfl⟩
    exact fun h => first (h ▸ List.mem_cons_self)
  | @block before _ _ tokens _ _ _ _ first single _ ih =>
    have hk : (firstOf tokens last).kind ∈ [.openCurly, .closeCurly] := by
      rw [first]
      decide
    have hs := delivers_statementIn_brace hg (p := ⟨tokens, before⟩) hk room
    exact ⟨bodyDelivers_step (s := none) hs single rfl ih.1, some _, _, _, single, ih.1, rfl⟩

theorem delivers_blockPart (hg : g.IsStandard) {room : Nat} {scopes inner : Scopes}
    {opening closing : Token} {tokens rest : List Token} {trees : List Tree}
    (opens : opening.kind = .openCurly) (closes : closing.kind = .closeCurly)
    (h : Chain g last (room + 1) (closing :: rest) scopes.push (tokens ++ closing :: rest) trees
      inner) :
    Delivers g last (g.blockPart (room + 2)).run ⟨opening :: (tokens ++ closing :: rest), scopes⟩
      (some (.block trees)) ⟨rest, inner.pop⟩ := by
  obtain ⟨all, hall, rfl⟩ := (h.body hg (show (firstOf (closing :: rest) last).kind = _ from
    closes)).1 []
  refine .bind (delivers_accept opens) (.bind delivers_note ?_)
  refine .bind (a := (all.flatten, inner.current.size)) (q := ⟨rest, inner.pop⟩) ?_
    (.bind delivers_note .pure)
  refine .bind delivers_deepen (delivers_inNewScope ?_)
  refine .bind (.map hall) (.bind (delivers_discard_expectOr closes) (.bind delivers_leave ?_))
  refine delivers_get fun s hs => ?_
  rw [hs]
  exact .pure

/-- What `Forms` says of the tokens in front of `rest` is delivered. -/
def PassageDelivers (g : Grammar) (last : Token) (room : Nat) (before : Scopes)
    (tokens : List Token) (trees : List Tree) (behind : Scopes) (rest : List Token) :
    Passage → Prop
  | .statement => (firstOf (tokens ++ rest) last).kind ∉ [.openCurly, .eof] ∧
      ∃ tree, Delivers g last (g.statementIn room) ⟨tokens ++ rest, before⟩ (some tree)
        ⟨rest, behind⟩ ∧ (keepStatement (some tree)).toList = trees
  | .block => 0 < room ∧ (firstOf (tokens ++ rest) last).kind = .openCurly ∧
      ∃ tree, Delivers g last (g.blockPart room).run ⟨tokens ++ rest, before⟩ (some tree)
        ⟨rest, behind⟩ ∧ (keepBlock (some tree)).toList = trees
  | .several => Chain g last room rest before (tokens ++ rest) trees behind

theorem not_mem_of_head {kind : Kind} (h : kind ∈ headKinds ∨ kind ∈ declaratorKinds) :
    kind ∉ [Kind.openCurly, .eof] :=
  h.elim ((by decide : ∀ k ∈ headKinds, k ∉ [Kind.openCurly, .eof]) _)
    ((by decide : ∀ k ∈ declaratorKinds, k ∉ [Kind.openCurly, .eof]) _)

/-- **Statements, blocks and sequences of them are delivered.** -/
theorem Forms.delivers (hg : g.IsStandard) {passage : Passage} {room : Nat}
    {before behind : Scopes} {tokens : List Token} {trees : List Tree}
    (h : Forms g passage room before tokens trees behind) (rest : List Token) :
    PassageDelivers g last room before tokens trees behind rest passage := by
  induction h generalizing rest with
  | semicolon mark =>
    refine ⟨?_, .empty, ?_, rfl⟩
    · rw [List.singleton_append, firstOf_cons, mark]
      decide
    · refine .bind delivers_currentKind ?_
      rw [List.singleton_append, firstOf_cons, if_neg fun h => absurd
        ((contains_declarators hg _).mp h) (by rw [mark]; decide)]
      exact delivers_expressionIn_semicolon hg mark
  | @expression _ _ _ _ _ checked mark undeclared content typed =>
    obtain ⟨first, others, rfl, hk⟩ := Derives.head (content.derives hg.positions) (.inr (.inr rfl))
    refine ⟨not_mem_of_head (.inl hk), checked, ?_, ?_⟩
    · refine .bind delivers_currentKind ?_
      rw [firstOf_cons] at undeclared
      rw [List.cons_append, List.cons_append, firstOf_cons,
        if_neg fun h => undeclared (List.contains_iff_mem.mp h)]
      rw [← List.cons_append, ← List.cons_append, List.append_assoc, List.singleton_append]
      exact delivers_expressionIn content mark typed
    · rw [keepStatement_eq (content.resolved_checked typed).isEmpty_eq_false]
      rfl
  | @bare _ _ _ keyword name _ _ type starts named annotated fresh mark =>
    refine ⟨not_mem_of_head (.inr (hg.mem_declarators.mp starts)),
      .declaration name (some type) (keyword.kind == .varDecl), ?_, rfl⟩
    refine .bind delivers_currentKind ?_
    rw [List.cons_append, firstOf_cons, if_pos (List.contains_iff_mem.mpr starts)]
    simp only [List.cons_append, List.append_assoc, List.nil_append]
    exact .map (delivers_declared named annotated fresh mark)
  | @initialized _ _ _ keyword name operator _ _ _ _ type _ value starts named annotated fresh
      equals content mark typed unified =>
    refine ⟨not_mem_of_head (.inr (hg.mem_declarators.mp starts)), .assignment operator (some type)
      (.declaration name (some type) (keyword.kind == .varDecl)) value, ?_, rfl⟩
    refine .bind delivers_currentKind ?_
    rw [List.cons_append, firstOf_cons, if_pos (List.contains_iff_mem.mpr starts)]
    simp only [List.cons_append, List.append_assoc, List.nil_append]
    exact .map (delivers_initialized named annotated fresh equals content mark typed unified)
  | block opens content closes ih =>
    refine ⟨Nat.succ_pos _, opens, _, ?_, keepBlock_eq _⟩
    have hblock := delivers_blockPart hg opens closes (ih (_ :: rest))
    rw [content.pop_eq] at hblock
    rw [List.cons_append, List.append_assoc, List.singleton_append]
    exact hblock
  | nil => exact .nil
  | @cons passage _ _ _ _ xs ys _ _ single _ _ ih ih' =>
    rw [PassageDelivers, List.append_assoc]
    have hfirst := ih (ys ++ rest)
    cases passage with
    | several => exact absurd rfl single
    | statement =>
      obtain ⟨hk, tree, hd, rfl⟩ := hfirst
      exact .statement hk hd (ih' rest)
    | block =>
      obtain ⟨deep, hk, tree, hd, rfl⟩ := hfirst
      exact .block deep hk hd (ih' rest)

/-! ## Programs -/

/-- The nesting of a unit is counted from zero, so that it has all the room. -/
theorem delivers_reset {p q : Place} {unit : Option Tree}
    (h : Delivers g last (g.unitIn g.maxDepth) p unit q) :
    Delivers g last (do resetDepth; some <$> notingFailure g.topLevelUnit) p (some unit) q := by
  intro s hs hscopes
  obtain ⟨t, ht, hq⟩ := h (s.atDepth 0) hs hscopes
  refine ⟨t, bind_eq_ok_iff.mpr ⟨(), _, rfl, map_eq_ok_iff.mpr ⟨unit, ?_, rfl⟩⟩, hq⟩
  have hunit : g.topLevelUnit (s.atDepth 0) = .ok unit t := ht
  unfold notingFailure
  rw [hunit]

theorem delivers_programStep {p q : Place} {unit : Option Tree}
    (hk : (firstOf p.tokens last).kind ≠ .eof)
    (h : Delivers g last (g.unitIn g.maxDepth) p unit q) :
    Delivers g last g.programStep p (some unit) q := by
  refine .bind delivers_currentKind ?_
  rw [if_neg hk]
  exact delivers_reset h

/-- The rounds of a program deliver what a chain up to the end does, each the tree of one unit. -/
theorem Chain.program (hg : g.IsStandard) {before behind : Scopes} {tokens : List Token}
    {trees : List Tree} (hlast : last.kind = .eof)
    (h : Chain g last g.maxDepth [] before tokens trees behind) (found : List (Option Tree)) :
    ∃ all, Delivers g last
        (collectFrom ParseState.remaining g.programStep g.programStep_shrinks found)
        ⟨tokens, before⟩ (found.reverse ++ all) ⟨[], behind⟩ ∧ all.filterMap id = trees := by
  induction h generalizing found with
  | nil =>
    refine ⟨[], ?_, rfl⟩
    rw [List.append_nil]
    refine delivers_collectFrom_none (.bind delivers_currentKind ?_)
    rw [if_pos (show (firstOf [] last).kind = .eof from hlast)]
    exact .pure
  | @statement _ _ _ tokens _ tree _ first single _ ih =>
    obtain ⟨all, hall, rfl⟩ := ih (keepStatement (some tree) :: found)
    refine ⟨keepStatement (some tree) :: all, ?_, filterMap_id_cons _ _⟩
    rw [List.reverse_cons, List.append_assoc] at hall
    have hk : (firstOf tokens last).kind ≠ .eof := fun h => first (by rw [h]; decide)
    exact delivers_collectFrom_some (delivers_programStep hk (.bind single .pure)) hall
  | @block _ _ _ tokens _ tree _ deep first single _ ih =>
    obtain ⟨all, hall, rfl⟩ := ih (keepBlock (some tree) :: found)
    refine ⟨keepBlock (some tree) :: all, ?_, filterMap_id_cons _ _⟩
    rw [List.reverse_cons, List.append_assoc] at hall
    obtain ⟨room, hroom⟩ := Nat.exists_eq_add_of_lt deep
    have hs : ∀ scopes, Delivers g last (g.statementIn g.maxDepth) ⟨tokens, scopes⟩ none
        ⟨tokens, scopes⟩ := by
      intro scopes
      rw [hroom]
      exact delivers_statementIn_brace hg (p := ⟨tokens, scopes⟩) (by rw [first]; decide) _
    have hk : (firstOf tokens last).kind ≠ .eof := by
      rw [first]
      decide
    refine delivers_collectFrom_some (delivers_programStep hk ?_) hall
    exact .bind (hs _) (.bind single .pure)

/-- **A source is accepted with the trees that its tokens form.** -/
theorem parse_of_forms (hg : g.IsStandard) {source : Source} {tokens : List Token}
    {stream : TokenStream} {units : List Tree} {scopes : Scopes}
    (ht : TokenStream.tokenize g.vocabulary (.ofSource source) = .ok (tokens ++ [last]) stream)
    (h : Forms g .several g.maxDepth .root tokens units scopes) :
    g.parse source = .ok units := by
  obtain ⟨last', hlast, hu, -⟩ := TokenStream.upcoming_of_tokenize ht
  rw [List.dropLast_concat] at hu
  have hchain : PassageDelivers g last' g.maxDepth .root tokens units scopes [] .several :=
    h.delivers hg []
  rw [PassageDelivers, List.append_nil] at hchain
  obtain ⟨all, hall, rfl⟩ := hchain.program hg hlast []
  have hprogram : Delivers g last' g.program ⟨tokens, .root⟩ (all.filterMap id) ⟨[], scopes⟩ := by
    refine .bind hall (delivers_get fun s _ => ?_)
    exact .bind delivers_note .pure
  obtain ⟨t, hrun, -⟩ := hprogram (g.start source) hu rfl
  unfold parse parseRun
  rw [hrun]

end ExprLang.Grammar
