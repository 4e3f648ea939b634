import ExprLang.Proofs.Blame.Expressions
import ExprLang.Proofs.Parallel.Programs
import ExprLang.Proofs.Scoping.Begins

/-!
# What programs are blamed on

The rules for declarations, statements and blocks. Where they are entered no symbol waits for its
type, so that the only one without is that of a declaration whose initializer is being read.

* `Declares`: the name of the declaration that begins in a state.
* `blames_declarationIn`, `blames_statementIn`: a name without a type is that name.
* `Undetermined`: a statement of the program that declares a name and cannot tell its type.
* **`blames_program`**: whole programs.
-/

namespace ExprLang

open TokenStream

/-- Only the symbol that has just been declared may wait for its type. -/
theorem Settled.untyped_of_declare {scopes inner : Scopes} {symbol : Symbol} {name : Token}
    (h : Settled scopes) (hd : scopes.declare? symbol = some inner) (hn : Untyped inner name) :
    name.value = symbol.id ∧ symbol.type = none := by
  obtain ⟨found, hl, hopen⟩ := hn
  rw [Scopes.lookup_declare hd] at hl
  split at hl
  · next hid =>
    cases hl
    exact ⟨hid.symm, hopen⟩
  · have := h _ _ hl
    rw [hopen] at this
    cases this

theorem Settled.not_untyped {scopes : Scopes} (h : Settled scopes) (name : Token) :
    ¬Untyped scopes name := by
  rintro ⟨symbol, hl, hopen⟩
  have := h _ _ hl
  rw [hopen] at this
  cases this

/-- An initializer without a type is refused as such only behind an annotation. -/
theorem blamed_of_unify {declared received : Option DataType} {line : UInt32} {d : Diagnostic}
    (h : unify declared received line = .error d)
    (hr : declared.isSome = true → received.isSome = true) :
    d.cause.isPlain = true ∧ d.line = line := by
  unfold unify at h
  split at h
  · cases h
    exact ⟨rfl, rfl⟩
  · cases h
  · cases hr rfl
  · split at h <;> cases h
    exact ⟨rfl, rfl⟩

namespace Grammar

variable {g : Grammar} {source : Source} {start s t : ParseState} {room : Nat}
  {Open : Token → Prop} {token : Token}

/-! ## Declarations -/

/-- The token has the name of the declaration that begins in `s`. -/
def Declares (g : Grammar) (s : ParseState) (token : Token) : Prop :=
  ∃ keyword name t, keyword.kind ∈ g.declarators ∧ name.kind = .identifier ∧
    Advance g s [keyword, name] t ∧ token.value = name.value

theorem blames_typeClause (h : Reached g start s) :
    FailsBy (Blames g start Open) g.typeClause s := by
  refine .bind (blames_accept h) fun r t hr => ?_
  rcases advance_of_accept hr with ⟨colon, rfl, -, ht⟩ | ⟨rfl, -⟩
  · have ht := h.advance ht
    refine .bind (blames_expectOr ht rfl) fun name u he => ?_
    obtain ⟨-, hu⟩ := advance_of_expectOr he
    split
    · exact .pure
    · exact blames_refuse (ht.seen_of_mem hu (List.mem_singleton_self _)) rfl
  · exact .pure

theorem blames_declare {assignable : Bool} {type : Option DataType} (seen : Seen g start s token) :
    FailsBy (Blames g start Open) (declare ⟨token.value, assignable, type⟩ token.line) s := by
  refine .get ?_
  unfold Scopes.declare
  rcases s.scopes.declare? _ with _ | scopes
  · exact .throw (.token seen rfl)
  · exact .modify

theorem reached_of_expressionIn {r : Option Tree} (h : g.expressionIn room s = .ok r t) :
    Reached g s t := by
  rcases reads_of_expressionIn h with ⟨-, ⟨_, _, _, _, -, -, ht, -⟩ | ⟨_, -, -, ht⟩ | ⟨-, ht, -⟩⟩
  · exact ht.reached
  · exact ht.reached
  · exact ht.reached

theorem blames_initializerIn {operator : Token} (h : Reached g start s)
    (seen : Seen g start s operator) :
    FailsBy (Blames g start (Untyped s.scopes)) (g.initializerIn room operator) s := by
  refine .bind (blames_expressionIn h) fun r t hr => ?_
  have hseen := seen.trans (reached_of_expressionIn hr)
  split
  · split
    · exact blames_refuse hseen rfl
    · exact .pure
  · exact blames_refuse hseen rfl

/-- What follows the `=` of a declaration, and how its type is settled. Only the declared name can
be without a type. -/
theorem blames_initialized (symbol : Symbol) {scopes : Scopes} {operator : Token}
    (h : Reached g start s) (seen : Seen g start s operator) (hs : scopes.AllSettled)
    (hd : scopes.declare? symbol = some s.scopes)
    (ho : ∀ name : Token, name.value = symbol.id → Open name) :
    FailsBy (Blames g start Open) (do
      let value ← g.initializerIn room operator
      match unify symbol.type value.type? operator.line with
      | .ok type =>
        resolve symbol.id type
        return (.assignment operator (some type)
          (.declaration token (some type) symbol.assignable) value : Tree)
      | .error d => throw (.refused d)) s := by
  refine .bind (fun e t he => ?_) fun value t hv => ?_
  · exact (blames_initializerIn h seen e t he).mono fun name _ hn =>
      ho name (hs.settled.untyped_of_declare hd hn).1
  · obtain ⟨_, _, tree, -, ht, hreads, hcheck⟩ := reads_of_initializerIn hv
    rcases hunify : unify symbol.type value.type? operator.line with d | type
    · have htyped : symbol.type.isSome = true → value.type?.isSome = true := fun htype =>
        (hreads.resolved nofun).type_isSome (hs.declare hd htype).settled hcheck
      obtain ⟨hplain, hline⟩ := blamed_of_unify hunify htyped
      obtain ⟨cause, line⟩ := d
      obtain rfl : line = operator.line := hline
      exact .throw (.token (seen.advance ht) hplain)
    · exact .bind .modify fun _ _ _ => .pure

theorem blames_declarationIn {first : Token} (h : Reached g start s) (hs : s.scopes.AllSettled)
    (ha : s.tokens.ahead = some first) (starts : first.kind ∈ g.declarators) :
    FailsBy (Blames g start (Declares g s)) (g.declarationIn room) s := by
  refine .bind (blames_consume h) fun keyword t hc => ?_
  obtain rfl := eq_of_consume ha hc
  have ht := advance_of_consume hc
  refine .bind (blames_expectOr (h.advance ht) rfl) fun name u he => ?_
  obtain ⟨hname, hu⟩ := advance_of_expectOr he
  have hdeclares : ∀ token : Token, token.value = name.value → Declares g s token :=
    fun _ hvalue => ⟨keyword, name, u, starts, hname, ht.trans hu, hvalue⟩
  have hreached := (h.advance ht).advance hu
  have hseen := (h.advance ht).seen_of_mem hu (List.mem_singleton_self _)
  refine .bind (blames_typeClause hreached) fun declared w hclause =>
    .bind .modify fun _ x hn => ?_
  obtain ⟨_, hw, -⟩ := clause_of_typeClause hclause
  have hx := hw.trans (advance_of_note hn)
  have hseen := hseen.advance hx
  have hreached := hreached.advance hx
  refine .bind (blames_declare hseen) fun _ y hd => ?_
  obtain ⟨scopes, hfresh, rfl⟩ := declare_eq_ok hd
  rw [((ht.trans hu).trans hx).scopes] at hfresh
  have hseen : Seen g start { x with scopes := scopes } name := hseen
  have hreached : Reached g start { x with scopes := scopes } := hreached
  refine .bind (blames_accept hreached) fun r z hr => ?_
  rcases advance_of_accept hr with ⟨operator, rfl, -, hz⟩ | ⟨rfl, hz, -⟩
  · have hoperator := hreached.seen_of_mem hz (List.mem_singleton_self _)
    exact blames_initialized ⟨name.value, keyword.kind == .varDecl, declared⟩ (hreached.advance hz)
      hoperator hs (hz.scopes ▸ hfresh) hdeclares
  · cases declared with
    | none => exact failsBy_refuse (.untyped (hseen.advance hz) (hdeclares name rfl))
    | some type => exact .bind (.map (blames_expectOr (hreached.advance hz) rfl)) fun _ _ _ => .pure

/-- **A statement that blames a name without a type** is the declaration of that name. -/
theorem blames_statementIn (h : Reached g start s) (hs : s.scopes.AllSettled) :
    FailsBy (Blames g start (Declares g s)) (g.statementIn room) s := by
  refine .bind (blames_currentKind h) fun kind t hk => ?_
  obtain ⟨first, rfl, ht, ha⟩ := advance_of_currentKind hk
  rw [← ht.scopes] at hs
  split
  · next hd =>
    refine .map fun e u he => ?_
    refine (blames_declarationIn (h.advance ht) hs ha (List.contains_iff_mem.mp hd) e u he).mono ?_
    rintro _ - ⟨keyword, name, w, starts, hname, hw, hvalue⟩
    exact ⟨keyword, name, w, starts, hname, ht.trans hw, hvalue⟩
  · exact fun e u he => (blames_expressionIn (h.advance ht) e u he).mono fun name _ hn =>
      absurd hn (hs.settled.not_untyped name)

/-! ## Blocks -/

theorem reached_of_accept {kind : Kind} {r : Option Token} (h : g.accept kind s = .ok r t) :
    Reached g s t := by
  rcases advance_of_accept h with ⟨_, -, -, ht⟩ | ⟨-, ht, -⟩
  · exact ht.reached
  · exact ht.reached

theorem PassageRun.reached {passage : Passage} {kept : Option Tree → Option Tree}
    {r : Option Tree} (h : PassageRun g passage room s t kept r) : Reached g s t := by
  rcases h with ⟨_, -, tokens, ht, -⟩ | ⟨-, ht⟩
  · exact ⟨tokens, ht⟩
  · exact ht.reached

theorem Rounds.reached {units : List (Option Tree)} (h : Rounds g s units t) : Reached g s t := by
  induction h with
  | refl s => exact .refl s
  | round first _ ih =>
    obtain ⟨tokens, ht, -⟩ := forms_of_programStep first
    exact .trans ⟨tokens, ht⟩ ih

theorem Begins.reached {entry : Entry} (h : Begins g source entry room s) :
    Reached g (g.start source) s := by
  induction h with
  | @unit _ _ _ t rounds look =>
    obtain ⟨_, -, ht, -⟩ := advance_of_currentKind look
    have ht : Reached g (g.start source) t := rounds.reached.advance ht
    exact ht
  | instead _ run ih => exact ih.trans (forms_of_statementIn run).reached
  | @inside _ _ t opening _ run ih =>
    have ht := (ih.trans (reached_of_accept run)).advance (advance_note (.entering opening.line) t)
    exact ht
  | behind _ run ih => exact ih.trans (forms_of_statementIn run).reached
  | again _ run ih =>
    obtain ⟨tokens, ht, -⟩ := (bodyRuns g _).step run (.nil (.refl _))
    exact ih.trans ⟨tokens, ht⟩

/-- The token has the name of a declaration that is being read when the source is parsed, and that
fails because its name, on the line of the token, has no type. -/
def Undetermined (g : Grammar) (source : Source) (token : Token) : Prop :=
  ∃ entry room s t, Begins g source entry room s ∧ entry ≠ .block ∧ Declares g s token ∧
    g.statementIn room s = .error (.refused ⟨.undeterminedType token.value, token.line⟩) t

/-- A failure while the source is parsed. -/
abbrev BlamesIn (g : Grammar) (source : Source) (e : Failure) (t : ParseState) : Prop :=
  Blames g (g.start source) (Undetermined g source) e t

theorem Begins.blames_statementIn {entry : Entry} (h : Begins g source entry room s)
    (hentry : entry ≠ .block) : FailsBy (BlamesIn g source) (g.statementIn room) s := by
  intro e t he
  refine (Grammar.blames_statementIn h.reached h.allSettled e t he).mono fun name hname hd => ?_
  exact ⟨entry, room, s, t, h, hentry, hd, hname ▸ he⟩

theorem blames_inNewScope {α : Type} {x : ParseM α}
    (h : FailsBy (BlamesIn g source) x { s with scopes := s.scopes.push }) :
    FailsBy (BlamesIn g source) (inNewScope x) s :=
  failsBy_inNewScope fun e t he => (h e t he).trans ⟨[], .refl _⟩

/-- A block fails where one of its statements or blocks does, or blames the token in the place of
its closing brace. -/
theorem blames_insideOf (h : Begins g source .statement room s)
    (hblock : ∀ t, Begins g source .block room t →
      FailsBy (BlamesIn g source) (g.blockPart room).run t) :
    FailsBy (BlamesIn g source) (g.insideOf (g.statementPart room) (g.blockPart room)) s := by
  refine .bind (.map (FailsBy.collect (P := Begins g source .statement room) h ?_ ?_))
    fun trees t ht => .bind (.map ?_) fun _ _ _ => .bind .modify fun _ _ _ => .get .pure
  · intro u hu
    refine .bind (hu.blames_statementIn (by decide)) fun r w hr =>
      .bind (hblock w (hu.behind hr)) fun _ _ _ => ?_
    split <;> exact .pure
  · exact fun u trees w hu hr => hu.again hr
  · obtain ⟨all, hall, -⟩ := map_eq_ok_iff.mp ht
    obtain ⟨-, _, -, tokens, ht, -⟩ := (bodyRuns g room).rounds hall
    exact blames_expectOr (h.reached.trans ⟨tokens, ht⟩) rfl

theorem blames_blockOf {inside : ParseM (List Tree × Nat)} (h : Reached g (g.start source) s)
    (hinside : ∀ opening t, g.accept .openCurly s = .ok (some opening) t →
      FailsBy (BlamesIn g source) inside (t.note (.entering opening.line))) :
    FailsBy (BlamesIn g source) (g.blockOf inside) s := by
  refine .bind (blames_accept h) fun r t hr => ?_
  cases r with
  | none => exact .pure
  | some opening =>
    refine .bind .modify fun _ u hn => ?_
    obtain rfl := modify_eq_ok_iff.mp hn
    exact .bind (hinside opening t hr) fun _ _ _ => .bind .modify fun _ _ _ => .pure

theorem blames_blockPart (room : Nat) :
    ∀ s, Begins g source .block room s → FailsBy (BlamesIn g source) (g.blockPart room).run s := by
  induction room with
  | zero =>
    refine fun s h => blames_blockOf h.reached fun opening t hr => blames_exceedDepth ?_
    have ht := h.reached.trans (reached_of_accept hr)
    exact ht.advance (advance_note (.entering opening.line) t)
  | succ room ih =>
    refine fun s h => blames_blockOf h.reached fun opening t hr => .bind .modify fun _ w hd => ?_
    obtain rfl := modify_eq_ok_iff.mp hd
    exact blames_inNewScope (blames_insideOf (h.inside hr) ih)

/-! ## Programs -/

theorem blames_unitIn (h : Begins g source .unit room s) :
    FailsBy (BlamesIn g source) (g.unitIn room) s := by
  refine .bind (h.blames_statementIn (by decide)) fun r t hr => ?_
  cases r with
  | some statement => exact .pure
  | none =>
    have ht := h.instead hr
    refine .bind (blames_blockPart room t ht) fun r u hr => ?_
    cases r with
    | some block => exact .pure
    | none =>
      have hu := ht.reached.trans (forms_of_blockIn hr).reached
      refine .bind (blames_lookahead hu) fun token w hl => ?_
      obtain ⟨hw, ha⟩ := advance_of_lookahead hl
      exact blames_refuse ((hu.advance hw).seen ha) rfl

/-- **A program that is refused** has been stopped by its scanner, or one of the tokens it has
pulled is blamed, for having no type only if it is the name in a declaration. -/
theorem blames_program (g : Grammar) (source : Source) :
    FailsBy (BlamesIn g source) g.program (g.start source) := by
  refine .bind (FailsBy.collect (P := fun t => ∃ units, Rounds g (g.start source) units t)
    ⟨[], .refl _⟩ ?_ ?_) fun _ _ _ => .get (.bind .modify fun _ _ _ => .pure)
  · rintro t ⟨units, ht⟩
    refine .bind (blames_currentKind ht.reached) fun kind u hk => ?_
    split
    · exact .pure
    · next hmore =>
      rw [Twin.reset_topLevelUnit]
      refine .bind .modify fun _ w hw => .map (failsBy_notingFailure fun e x he => ?_)
      obtain rfl := modify_eq_ok_iff.mp hw
      exact (blames_unitIn (.unit ht hk hmore) e x he).trans (advance_note _ x).reached
  · rintro t unit u ⟨units, ht⟩ hu
    exact ⟨units ++ [unit], ht.trans (.round hu (.refl u))⟩

end Grammar

end ExprLang
