import ExprLang.Proofs.Language.Expressions
import ExprLang.Proofs.Parse.Exact
import ExprLang.Proofs.Typing.Category

/-!
# The parser accepts its grammar

* `accepts_statementIn`, `accepts_blockIn`: the parts of programs, where they stand.
* **`parse_of_derives`**: a grammatical program is accepted, or its failure is tolerated.
* **`parse_language`**: what is accepted is grammatical, and the other way round.
-/

namespace ExprLang.Grammar

variable {g : Grammar} {last : Token} {α : Type}

/-- What an action that is judged by its tokens returns is a value that it can return. -/
theorem Accepts.with_run {x : ParseM α} {tokens : List Token} {Q : α → List Token → Prop}
    (h : Accepts g last x tokens Q) :
    Accepts g last x tokens fun a rest => Q a rest ∧ ∃ s t, x s = .ok a t := by
  intro s hs
  have hx := h s hs
  unfold Runs at hx ⊢
  rcases hr : x s with ⟨a, t⟩ | ⟨e, t⟩ <;> rw [hr] at hx
  · obtain ⟨rest, ht, hq⟩ := hx
    exact ⟨rest, ht, hq, s, t, hr⟩
  · exact hx

theorem Accepts.of_delivers {x : ParseM α} {tokens rest : List Token} {a : α}
    (h : ∀ scopes, Delivers g last x ⟨tokens, scopes⟩ a ⟨rest, scopes⟩) :
    Accepts g last x tokens fun r left => a = r ∧ rest = left := by
  intro s hs
  obtain ⟨t, ht, hb, -⟩ := h s.scopes s hs rfl
  unfold Runs
  rw [ht]
  exact ⟨rest, hb, rfl, rfl⟩

/-! ## Expressions with their semicolons -/

/-- What neither starts an operand nor may stand for one is left where it is. -/
theorem accepts_bindingIn_other (hg : g.IsStandard) {tokens : List Token}
    (hk : (firstOf tokens last).kind ∈ stopKinds) (room : Nat) :
    Accepts g last (g.bindingIn room none false) tokens fun r rest =>
      none = r ∧ tokens = rest := by
  cases room with
  | zero =>
    rw [bindingIn]
    exact accepts_exceedDepth
  | succ room => exact .of_delivers fun scopes => delivers_bindingIn_stop hg hk room

theorem accepts_typed {tree : Tree} {tokens : List Token} :
    Accepts g last (g.typed tree) tokens fun _ rest => tokens = rest := by
  unfold typed
  split
  · exact .pure rfl
  · next d hd =>
    have hc := category_of_check tree (congrArg Checked.fault hd)
    refine .bind (P := fun _ rest => tokens = rest) ?_ ?_
    · unfold noteFault
      split
      · exact accepts_note
      · exact .pure rfl
    · rintro _ _ rfl
      exact accepts_throw hc

theorem exists_resolved {room : Nat} {previous : Option Token} {inParen : Bool}
    {s t : ParseState} {tree : Tree}
    (h : g.bindingIn room previous inParen s = .ok (some tree) t) :
    ∃ scopes, Resolved g.vocabulary scopes tree := by
  obtain ⟨tokens, ht, hr⟩ := (reads_of_bindingIn h).reads
  refine ⟨s.scopes, ?_⟩
  rcases ha : t.tokens.ahead with _ | next
  · exact (hr default fun _ hn => nomatch ha.symm.trans hn).resolved fun _ _ _ h => nomatch h
  · exact (hr next (.of_ahead ha)).resolved fun _ _ _ h => nomatch h

/-- An expression is read with its semicolon, and is not a semicolon alone. -/
theorem accepts_expressionIn (hg : g.IsStandard) {room : Nat} {token : Token}
    {tokens rest : List Token} (h : Derives .expression tokens) (hk : token.kind = .semicolon) :
    Accepts g last (g.expressionIn room) (tokens ++ token :: rest) fun r left =>
      ∃ tree, r = some tree ∧ tree.isEmpty = false ∧ rest = left := by
  refine .bind ((accepts_nested hg room).2 none false tokens (token :: rest) h hk).with_run ?_
  rintro (_ | tree) _ ⟨⟨hr, others, -, rfl, hnone⟩, s, t, hrun⟩
  · cases hr
  · rw [hnone rfl]
    refine .bind (accepts_discard_expectOr hk) ?_
    rintro _ _ rfl
    refine .map accepts_typed.with_run ?_
    rintro checked _ ⟨rfl, u, w, hc⟩
    obtain ⟨scopes, hresolved⟩ := exists_resolved hrun
    have hchecked := hresolved.check g.typing
    rw [(check_of_typed hc).2] at hchecked
    exact ⟨checked, rfl, hchecked.isEmpty_eq_false, rfl⟩

theorem accepts_expressionIn_semicolon (hg : g.IsStandard) {room : Nat} {token : Token}
    {rest : List Token} (hk : token.kind = .semicolon) :
    Accepts g last (g.expressionIn room) (token :: rest) (Reaches rest) := by
  refine .bind (accepts_bindingIn_other hg (by rw [firstOf_cons, hk]; decide) room) ?_
  rintro _ _ ⟨rfl, rfl⟩
  refine .bind (accepts_accept hk) ?_
  rintro _ _ ⟨rfl, rfl⟩
  exact .pure ⟨rfl, rfl⟩

theorem accepts_expressionIn_brace (hg : g.IsStandard) {room : Nat} {tokens : List Token}
    (hk : (firstOf tokens last).kind ∈ [.openCurly, .closeCurly]) :
    Accepts g last (g.expressionIn room) tokens fun r rest => none = r ∧ tokens = rest := by
  refine .bind (accepts_bindingIn_other hg (List.mem_cons_of_mem _ hk) room) ?_
  rintro _ _ ⟨rfl, rfl⟩
  refine .bind (accepts_accept_other ?_) ?_
  · intro h
    rw [h] at hk
    revert hk
    decide
  · rintro _ _ ⟨rfl, rfl⟩
    exact .pure ⟨rfl, rfl⟩

/-! ## Declarations -/

/-- The names of types in these tokens are those of known types. -/
def AllClassified (g : Grammar) (tokens : List Token) : Prop :=
  ∀ token ∈ tokens, Classified g.vocabulary token

theorem accepts_typeClause (hg : g.IsStandard) {clause rest : List Token}
    (h : Derives .typing clause) (hc : AllClassified g clause)
    (hk : (firstOf rest last).kind ≠ .colon) :
    Accepts g last g.typeClause (clause ++ rest) fun _ left => rest = left := by
  cases h with
  | unannotated =>
    refine .bind (accepts_accept_other hk) ?_
    rintro _ _ ⟨rfl, rfl⟩
    exact .pure rfl
  | annotated mark named =>
    refine .bind (accepts_accept mark) ?_
    rintro _ _ ⟨rfl, rfl⟩
    refine .bind (accepts_expectOr named) ?_
    rintro _ _ ⟨rfl, rfl⟩
    obtain ⟨type, ht⟩ := hg.exists_typeNamed
      (hc _ (List.mem_cons_of_mem _ List.mem_cons_self)) named
    rw [ht]
    exact .pure rfl

theorem accepts_declare {symbol : Symbol} {line : UInt32} {tokens : List Token} :
    Accepts g last (declare symbol line) tokens fun _ rest => tokens = rest := by
  refine .bind accepts_get ?_
  rintro s _ rfl
  unfold Scopes.declare
  rcases s.scopes.declare? symbol with _ | scopes
  · exact accepts_throw rfl
  · exact accepts_modify fun _ => rfl

theorem accepts_initializerIn (hg : g.IsStandard) {room : Nat} {operator token : Token}
    {tokens rest : List Token} (h : Derives .expression tokens) (hk : token.kind = .semicolon) :
    Accepts g last (g.initializerIn room operator) (tokens ++ token :: rest) fun _ left =>
      rest = left := by
  refine .bind (accepts_expressionIn hg h hk) ?_
  rintro _ _ ⟨tree, rfl, hempty, rfl⟩
  simp only [hempty, Bool.false_eq_true, if_false]
  exact .pure rfl

/-- What follows the type clause of a declaration is no colon. -/
theorem kind_of_initializer {value rest : List Token} {token : Token}
    (h : Derives .initializer value) (hk : token.kind = .semicolon) :
    (firstOf (value ++ token :: rest) last).kind ≠ .colon := by
  cases h with
  | uninitialized =>
    rw [List.nil_append, firstOf_cons, hk]
    decide
  | initialized mark _ =>
    rw [List.cons_append, firstOf_cons, mark]
    decide

theorem accepts_declarationIn (hg : g.IsStandard) {room : Nat} {keyword name token : Token}
    {clause value rest : List Token} (named : name.kind = .identifier)
    (typing : Derives .typing clause) (hc : AllClassified g clause)
    (initializer : Derives .initializer value) (mark : token.kind = .semicolon) :
    Accepts g last (g.declarationIn room)
      (keyword :: name :: (clause ++ (value ++ token :: rest))) fun _ left => rest = left := by
  refine .bind accepts_consume ?_
  rintro _ _ ⟨rfl, rfl⟩
  refine .bind (accepts_expectOr named) ?_
  rintro _ _ ⟨rfl, rfl⟩
  refine .bind (accepts_typeClause hg typing hc (kind_of_initializer initializer mark)) ?_
  rintro declared _ rfl
  refine .bind accepts_note ?_
  rintro _ _ rfl
  refine .bind accepts_declare ?_
  rintro _ _ rfl
  cases initializer with
  | uninitialized =>
    refine .bind (accepts_accept_other (by rw [List.nil_append, firstOf_cons, mark]; decide)) ?_
    rintro _ _ ⟨rfl, rfl⟩
    cases declared with
    | none => exact accepts_refuse rfl
    | some type =>
      refine .bind (accepts_discard_expectOr mark) ?_
      rintro _ _ rfl
      exact .pure rfl
  | initialized equals content =>
    refine .bind (accepts_accept equals) ?_
    rintro _ _ ⟨rfl, rfl⟩
    refine .bind (accepts_initializerIn hg content mark) ?_
    rintro tree _ rfl
    split
    · refine .bind (accepts_modify fun _ => rfl) ?_
      rintro _ _ rfl
      exact .pure rfl
    · next hu => exact accepts_throw (category_of_unify hu)

/-! ## Statements and blocks -/

theorem accepts_statementIn (hg : g.IsStandard) {room : Nat} {tokens rest : List Token}
    (h : Derives .unit tokens) (hc : AllClassified g tokens)
    (hk : (firstOf tokens last).kind ≠ .openCurly) :
    Accepts g last (g.statementIn room) (tokens ++ rest) (Reaches rest) := by
  refine .bind accepts_currentKind ?_
  rintro _ _ ⟨rfl, rfl⟩
  have hdecl : ∀ k : Kind, g.declarators.contains k = true ↔ k ∈ declaratorKinds := fun k => by
    rw [List.contains_iff_mem, hg.mem_declarators]
  cases h with
  | semicolon mark =>
    rw [List.singleton_append, firstOf_cons, if_neg fun h => absurd ((hdecl _).mp h) ?_]
    · exact accepts_expressionIn_semicolon hg mark
    · rw [mark]
      decide
  | declaration starts named typing initializer mark =>
    rw [List.cons_append, firstOf_cons, if_pos ((hdecl _).mpr starts)]
    simp only [List.cons_append, List.append_assoc, List.nil_append]
    refine .map (accepts_declarationIn hg named typing ?_ initializer mark) ?_
    · exact fun token ht => hc token (by simp [ht])
    · exact fun _ _ h => ⟨rfl, h⟩
  | expression content mark =>
    obtain ⟨first, others, rfl, hf⟩ := content.head (.inr (.inr rfl))
    have hnot : first.kind ∉ declaratorKinds :=
      (by decide : ∀ k ∈ headKinds, k ∉ declaratorKinds) _ hf
    rw [List.cons_append, List.cons_append, firstOf_cons,
      if_neg fun h => hnot ((hdecl _).mp h)]
    rw [List.append_assoc, List.singleton_append, ← List.cons_append]
    refine (accepts_expressionIn hg content mark).mono ?_
    rintro _ _ ⟨tree, rfl, -, rfl⟩
    exact ⟨rfl, rfl⟩
  | block opens => exact absurd opens hk

theorem accepts_statementIn_brace (hg : g.IsStandard) {room : Nat} {tokens : List Token}
    (hk : (firstOf tokens last).kind ∈ [.openCurly, .closeCurly]) :
    Accepts g last (g.statementIn room) tokens fun r rest => none = r ∧ tokens = rest := by
  refine .bind accepts_currentKind ?_
  rintro _ _ ⟨rfl, rfl⟩
  rw [if_neg]
  · exact accepts_expressionIn_brace hg hk
  · rw [List.contains_iff_mem, hg.mem_declarators]
    exact (by decide : ∀ k ∈ [Kind.openCurly, .closeCurly], k ∉ declaratorKinds) _ hk

theorem accepts_blockPart_other {room : Nat} {tokens : List Token}
    (hk : (firstOf tokens last).kind ≠ .openCurly) :
    Accepts g last (g.blockPart room).run tokens fun r rest => none = r ∧ tokens = rest := by
  have hblock : ∀ inside, Accepts g last (g.blockOf inside) tokens fun r rest =>
      none = r ∧ tokens = rest := by
    intro inside
    refine .bind (accepts_accept_other hk) ?_
    rintro _ _ ⟨rfl, rfl⟩
    exact .pure ⟨rfl, rfl⟩
  cases room <;> exact hblock _

/-- The rule for blocks, with room for so many levels, reads them. -/
def AcceptsBlock (g : Grammar) (last : Token) (room : Nat) : Prop :=
  ∀ tokens rest, Derives .unit tokens → AllClassified g tokens →
    (firstOf tokens last).kind = .openCurly →
      Accepts g last (g.blockPart room).run (tokens ++ rest) (Reaches rest)

/-- The tokens are statements and blocks and then `rest`. -/
def Inside (g : Grammar) (rest tokens : List Token) : Prop :=
  ∃ content, Derives .program content ∧ AllClassified g content ∧ content ++ rest = tokens

/-- Inside a block, or at the end of it, there is a unit or nothing in front of `rest`. -/
theorem Inside.cases {rest tokens : List Token} (h : Inside g rest tokens) :
    tokens = rest ∨ ∃ unit others, tokens = unit ++ others ∧ Derives .unit unit ∧
      AllClassified g unit ∧ Inside g rest others := by
  obtain ⟨content, hd, hc, rfl⟩ := h
  cases hd with
  | nil => exact .inl rfl
  | cons first others =>
    obtain ⟨hx, hy⟩ := List.forall_mem_append.mp hc
    exact .inr ⟨_, _, List.append_assoc .., first, hx, _, others, hy, rfl⟩

theorem firstOf_unit {unit : List Token} (h : Derives .unit unit) (others : List Token)
    (next : Token) : firstOf (unit ++ others) next = firstOf unit next := by
  obtain ⟨token, rest, rfl, -⟩ := h.unit_head
  rfl

/-- One round inside a block: a statement if there is one here. -/
theorem accepts_statement_inside (hg : g.IsStandard) {room : Nat} {rest tokens : List Token}
    (hend : (firstOf rest last).kind = .closeCurly) (h : Inside g rest tokens) :
    Accepts g last (g.statementIn room) tokens fun r left =>
      Inside g rest left ∧ (r = none → (firstOf left last).kind ∈ [.openCurly, .closeCurly]) := by
  have hbrace : (firstOf tokens last).kind ∈ [.openCurly, .closeCurly] →
      Accepts g last (g.statementIn room) tokens fun r left =>
        Inside g rest left ∧ (r = none → (firstOf left last).kind ∈ [.openCurly, .closeCurly]) := by
    intro hk
    refine (accepts_statementIn_brace hg hk).mono ?_
    rintro _ _ ⟨rfl, rfl⟩
    exact ⟨h, fun _ => hk⟩
  rcases h.cases with rfl | ⟨unit, others, rfl, hd, hc, ho⟩
  · exact hbrace (by rw [hend]; decide)
  · by_cases hk : (firstOf unit last).kind = .openCurly
    · exact hbrace (by rw [firstOf_unit hd, hk]; decide)
    · refine (accepts_statementIn hg hd hc hk).mono ?_
      rintro r _ ⟨hr, rfl⟩
      refine ⟨ho, ?_⟩
      rintro rfl
      cases hr

/-- The other half of a round: a block if there is one here. -/
theorem accepts_block_inside {room : Nat} (ih : AcceptsBlock g last room)
    {rest tokens : List Token} (hend : (firstOf rest last).kind = .closeCurly)
    (h : Inside g rest tokens) :
    Accepts g last (g.blockPart room).run tokens fun r left =>
      Inside g rest left ∧
        (r = none → tokens = left ∧ (firstOf left last).kind ≠ .openCurly) := by
  by_cases hk : (firstOf tokens last).kind = .openCurly
  · rcases h.cases with rfl | ⟨unit, others, rfl, hd, hc, ho⟩
    · rw [hend] at hk
      cases hk
    · rw [firstOf_unit hd] at hk
      refine (ih unit others hd hc hk).mono ?_
      rintro r _ ⟨hr, rfl⟩
      refine ⟨ho, ?_⟩
      rintro rfl
      cases hr
  · refine (accepts_blockPart_other hk).mono ?_
    rintro _ _ ⟨rfl, rfl⟩
    exact ⟨h, fun _ => ⟨rfl, hk⟩⟩

theorem Inside.eq_of_closing {rest tokens : List Token} (h : Inside g rest tokens)
    (hk : (firstOf tokens last).kind = .closeCurly) : tokens = rest := by
  rcases h.cases with rfl | ⟨unit, others, rfl, hd, -, -⟩
  · rfl
  · obtain ⟨token, tail, rfl, hu⟩ := hd.unit_head
    rw [List.cons_append, firstOf_cons] at hk
    rw [hk] at hu
    exact absurd hu (by decide)

theorem accepts_bodyStep (hg : g.IsStandard) {room : Nat} (ih : AcceptsBlock g last room)
    {rest tokens : List Token} (hend : (firstOf rest last).kind = .closeCurly)
    (h : Inside g rest tokens) :
    Accepts g last (bodyStep (g.statementPart room) (g.blockPart room)) tokens fun r left =>
      match r with
      | some _ => Inside g rest left
      | none => left = rest := by
  refine .bind (accepts_statement_inside hg hend h) ?_
  rintro statement mid ⟨hmid, hs⟩
  refine .bind (accepts_block_inside ih hend hmid) ?_
  rintro block left ⟨hleft, hb⟩
  rcases statement with _ | statement
  · rcases block with _ | block
    · obtain ⟨rfl, hne⟩ := hb rfl
      have hk := hs rfl
      rw [List.mem_cons, List.mem_singleton] at hk
      exact .pure (hleft.eq_of_closing (hk.resolve_left hne))
    · exact .pure hleft
  · exact .pure hleft

theorem accepts_insideOf (hg : g.IsStandard) {room : Nat} (ih : AcceptsBlock g last room)
    {closing : Token} {tokens rest : List Token} (h : Derives .program tokens)
    (hc : AllClassified g tokens) (hk : closing.kind = .closeCurly) :
    Accepts g last (g.insideOf (g.statementPart room) (g.blockPart room))
      (tokens ++ closing :: rest) fun _ left => rest = left := by
  refine .bind (P := fun _ left => closing :: rest = left) ?_ ?_
  · refine .map (P := fun _ left => closing :: rest = left) ?_ fun _ _ h => h
    refine accepts_collect (P := Inside g (closing :: rest)) ⟨tokens, h, hc, rfl⟩ ?_
    intro found tokens' h'
    refine (accepts_bodyStep hg ih (show (firstOf (closing :: rest) last).kind = _ from hk) h').mono
      ?_
    rintro (_ | trees) left hl
    · exact Eq.symm hl
    · exact hl
  · rintro _ _ rfl
    refine .bind (accepts_discard_expectOr hk) ?_
    rintro _ _ rfl
    refine .bind accepts_leave ?_
    rintro _ _ rfl
    refine .bind accepts_get ?_
    rintro _ _ rfl
    exact .pure rfl

theorem accepts_blockOf {inside : ParseM (List Tree × Nat)} {opening : Token}
    {tokens rest : List Token} (hk : opening.kind = .openCurly)
    (h : Accepts g last inside tokens fun _ left => rest = left) :
    Accepts g last (g.blockOf inside) (opening :: tokens) (Reaches rest) := by
  refine .bind (accepts_accept hk) ?_
  rintro _ _ ⟨rfl, rfl⟩
  refine .bind accepts_note ?_
  rintro _ _ rfl
  refine .bind h ?_
  rintro ⟨statements, symbols⟩ _ rfl
  refine .bind accepts_note ?_
  rintro _ _ rfl
  exact .pure ⟨rfl, rfl⟩

theorem accepts_blockIn (hg : g.IsStandard) (room : Nat) : AcceptsBlock g last room := by
  induction room with
  | zero =>
    intro tokens rest h hc hk
    obtain ⟨token, tail, rfl, -⟩ := h.unit_head
    exact accepts_blockOf hk accepts_exceedDepth
  | succ room ih =>
    intro tokens rest h hc hk
    obtain ⟨opening, tail, rfl, -⟩ := h.unit_head
    obtain ⟨inner, closing, rfl, hd, hclose⟩ := h.exists_block hk
    obtain ⟨-, hinner⟩ := List.forall_mem_cons.mp hc
    rw [List.cons_append, List.append_assoc, List.singleton_append]
    refine accepts_blockOf hk (.bind accepts_deepen ?_)
    rintro _ _ rfl
    exact accepts_inNewScope
      (accepts_insideOf hg ih hd (List.forall_mem_append.mp hinner).1 hclose)

/-! ## Programs -/

theorem accepts_unitIn (hg : g.IsStandard) {room : Nat} {tokens rest : List Token}
    (h : Derives .unit tokens) (hc : AllClassified g tokens) :
    Accepts g last (g.unitIn room) (tokens ++ rest) fun _ left => rest = left := by
  by_cases hk : (firstOf tokens last).kind = .openCurly
  · refine .bind (accepts_statementIn_brace hg (by rw [firstOf_unit h, hk]; decide)) ?_
    rintro _ _ ⟨rfl, rfl⟩
    refine .bind (accepts_blockIn hg room tokens rest h hc hk) ?_
    rintro (_ | block) _ ⟨hr, rfl⟩
    · cases hr
    · exact .pure rfl
  · refine .bind (accepts_statementIn hg h hc hk) ?_
    rintro (_ | statement) _ ⟨hr, rfl⟩
    · cases hr
    · exact .pure rfl

theorem accepts_programStep (hg : g.IsStandard) {tokens : List Token} (hlast : last.kind = .eof)
    (h : Inside g [] tokens) :
    Accepts g last g.programStep tokens fun r left =>
      match r with
      | some _ => Inside g [] left
      | none => True := by
  refine .bind accepts_currentKind ?_
  rintro _ _ ⟨rfl, rfl⟩
  rcases h.cases with rfl | ⟨unit, others, rfl, hd, hc, ho⟩
  · rw [if_pos (show (firstOf [] last).kind = .eof from hlast)]
    exact .pure trivial
  · have hne : (firstOf unit last).kind ≠ .eof := by
      obtain ⟨token, rest, rfl, -⟩ := hd.unit_head
      exact hd.ne_eof token List.mem_cons_self
    rw [firstOf_unit hd, if_neg hne]
    refine .bind (accepts_modify fun _ => rfl) ?_
    rintro _ _ rfl
    refine .map (accepts_notingFailure (.bind (P := fun _ left => unit ++ others = left) ?_ ?_))
      fun _ left (hleft : others = left) => hleft ▸ ho
    · refine .bind accepts_get ?_
      rintro s _ rfl
      exact .pure rfl
    · rintro room _ rfl
      exact accepts_unitIn hg hd hc

theorem accepts_program (hg : g.IsStandard) {tokens : List Token} (hlast : last.kind = .eof)
    (h : Derives .program tokens) (hc : AllClassified g tokens) :
    Accepts g last g.program tokens fun _ _ => True := by
  refine .bind (P := fun _ _ => True) ?_ ?_
  · refine accepts_collect (P := Inside g []) ⟨tokens, h, hc, List.append_nil _⟩ ?_
    intro _ tokens' h'
    refine (accepts_programStep hg hlast h').mono ?_
    rintro (_ | unit) left hl
    · trivial
    · exact hl
  · intro found left _
    refine .bind accepts_get ?_
    rintro _ _ rfl
    refine .bind accepts_note ?_
    rintro _ _ rfl
    exact .pure trivial

/-- **A grammatical program is accepted**, or refused for what it means or how deep it is nested. -/
theorem parse_of_derives (hg : g.IsStandard) {source : Source} {tokens : List Token}
    {stream : TokenStream}
    (h : TokenStream.tokenize g.vocabulary (.ofSource source) = .ok (tokens ++ [last]) stream)
    (hd : Derives .program tokens) :
    (∃ units, g.parse source = .ok units) ∨
      ∃ e, g.parse source = .error e ∧ Tolerated g.maxDepth e := by
  obtain ⟨last', hlast, hu, ht⟩ := TokenStream.upcoming_of_tokenize h
  rw [List.dropLast_concat] at hu ht
  have hstart : Before g last' tokens (g.start source) := hu
  have hc : AllClassified g tokens := by
    have := Scanner.classified_of_upcoming (v := g.vocabulary) (TokenStream.ofSource source).scanner
    rwa [← TokenStream.upcoming_of_none rfl, hu] at this
  have hrun := accepts_program hg hlast hd hc _ hstart
  unfold Runs at hrun
  unfold parse parseRun
  rcases hr : g.program (g.start source) with ⟨units, t⟩ | ⟨e, t⟩ <;> rw [hr] at hrun
  · exact .inl ⟨units, rfl⟩
  · exact .inr ⟨e, rfl, hrun⟩

/-- **The parser accepts its grammar.** Whatever the typing table and the nesting limit, the tokens
of an accepted program are grammatical; and if those of a source are, it is accepted, or refused for
what it means or how deep it is nested. -/
theorem parse_language (typing : TypingTable) (maxDepth : Nat) (source : Source) :
    (∀ units, (standard .standard typing maxDepth).parse source = .ok units →
      ∃ tokens last stream,
        TokenStream.tokenize .standard (.ofSource source) = .ok (tokens ++ [last]) stream ∧
          last.kind = .eof ∧ Derives .program tokens) ∧
    ∀ tokens last stream,
      TokenStream.tokenize .standard (.ofSource source) = .ok (tokens ++ [last]) stream →
        Derives .program tokens →
          (∃ units, (standard .standard typing maxDepth).parse source = .ok units) ∨
            ∃ d, (standard .standard typing maxDepth).parse source = .error (.refused d) ∧
              (d.cause.category = .semantic ∨ d.cause = .nestingTooDeep maxDepth) := by
  have hg := isStandard_standard typing maxDepth
  constructor
  · intro units h
    obtain ⟨tokens, last, stream, hk, hd, ht⟩ := derives_of_parse hg h
    exact ⟨tokens, last, stream, ht, hk, hd⟩
  · intro tokens last stream ht hd
    rcases parse_of_derives hg ht hd with h | ⟨e, h, d, rfl, hc⟩
    · exact .inl h
    · exact .inr ⟨d, h, hc⟩

end ExprLang.Grammar
