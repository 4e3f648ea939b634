import ExprLang.Proofs.Nesting.Height
import ExprLang.Proofs.Parse.Failing
import ExprLang.Proofs.Parse.Phrase
import ExprLang.Proofs.Stream.Attempts
import ExprLang.Proofs.Typing.InOrder

/-!
# Types come last

The rules for expressions ask the typing table nothing before the semicolon is taken. So two parses
of an expression whose typing tables differ go the same way up to there, and an error of form comes
before an error of type whatever the table says.

* `withTyping`: a grammar with another typing table.
* `climb_withTyping`, `nested_withTyping`: the rules that do not ask for types.
* `formIn`, `expressionIn_eq`: an expression is read first, and typed then.
* `Failure.OfTyping`, `ofTyping_of_check`: what a type check may fail with.
* `SameCourse`: two states that differ in what their journals say of types, at most.
* **`form_before_types`**: parses of an expression with two typing tables.
-/

namespace ExprLang

open TokenStream

/-! ## Rules that ask for no types -/

namespace Grammar

/-- The grammar with another typing table. -/
def withTyping (g : Grammar) (table : TypingTable) : Grammar := { g with typing := table }

variable (g : Grammar) (table : TypingTable)

theorem afterOperand_withTyping (inParen : Bool) (previous : String) (token : Token) :
    (g.withTyping table).afterOperand inParen previous token =
      g.afterOperand inParen previous token := rfl

theorem yields_withTyping (previous : Option Token) (incoming : Token) :
    (g.withTyping table).yields previous incoming = g.yields previous incoming := rfl

theorem climb_withTyping (rightOperand : Token → ParseM (Option Tree)) (previous : Option Token)
    (inParen : Bool) (left : Tree) (height : Nat) :
    (g.withTyping table).climb rightOperand previous inParen left height =
      g.climb rightOperand previous inParen left height := by
  rw [climb, climb]
  refine bind_congr fun _ => bind_congr fun token => bind_congr fun s => ?_
  rw [afterOperand_withTyping]
  split
  · rfl
  · rfl
  · refine bind_congr fun _ => ?_
    rw [yields_withTyping]
    split
    · rfl
    · refine bind_congr fun operator => bind_congr fun right => ?_
      rcases right with _ | right
      · rfl
      · exact dite_congr rfl (fun _ => rfl) fun _ =>
          climb_withTyping rightOperand previous inParen _ _
termination_by g.maxDepth - height

theorem nested_withTyping (room : Nat) :
    (g.withTyping table).signedIn room = g.signedIn room ∧
      (g.withTyping table).bindingIn room = g.bindingIn room := by
  induction room with
  | zero => exact ⟨rfl, rfl⟩
  | succ room ih =>
    obtain ⟨hsigned, hbinding⟩ := ih
    constructor
    · refine bind_congr fun kind => ?_
      rw [hsigned, hbinding]
      rfl
    · funext previous inParen
      refine bind_congr fun _ => ?_
      rw [hsigned]
      refine bind_congr fun left => ?_
      rcases left with _ | left
      · rfl
      · rw [hbinding]
        exact congrArg (· >>= _) (climb_withTyping g table _ previous inParen left left.height)

/-! ## Reading, then typing -/

/-- An expression with its semicolon, before it is typed. -/
def formIn (room : Nat) : ParseM (Option Tree) := do
  match ← g.bindingIn room none false with
  | some tree =>
    discard (g.expectOr .semicolon (.missingToken ";"))
    return some tree
  | none => return (← g.accept .semicolon).map fun _ => .empty

/-- Types what has been read, if anything has. -/
def typedForm (form : Option Tree) : ParseM (Option Tree) :=
  match form with
  | some tree => some <$> g.typed tree
  | none => pure none

theorem expressionIn_eq (room : Nat) : g.expressionIn room = g.formIn room >>= g.typedForm := by
  rw [expressionIn, formIn, bind_assoc]
  refine bind_congr fun tree => ?_
  rcases tree with _ | tree
  · simp only [bind_assoc, pure_bind]
    refine bind_congr fun found => ?_
    cases found <;> rfl
  · simp only [bind_assoc, pure_bind]
    rfl

theorem formIn_withTyping (room : Nat) : (g.withTyping table).formIn room = g.formIn room := by
  rw [formIn, formIn, (g.nested_withTyping table room).2]
  rfl

variable {g}

theorem semicolon_of_formIn {room : Nat} {s t : ParseState} {tree : Tree}
    (h : g.formIn room s = .ok (some tree) t) :
    ∃ tokens semicolon, semicolon.kind = .semicolon ∧ Advance g s (tokens ++ [semicolon]) t := by
  obtain ⟨r, u, hb, h⟩ := bind_eq_ok_iff.mp h
  rcases r with _ | tree
  · obtain ⟨found, w, ha, h⟩ := bind_eq_ok_iff.mp h
    obtain ⟨hf, rfl⟩ := pure_eq_ok_iff.mp h
    rcases advance_of_accept ha with ⟨semicolon, rfl, hk, hw⟩ | ⟨rfl, -⟩
    · rcases reads_of_bindingIn hb with ⟨_, hr, -⟩ | ⟨-, -, hu, -⟩
      · cases hr
      · exact ⟨[], semicolon, hk, hu.trans hw⟩
    · cases hf
  · obtain ⟨_, w, he, h⟩ := bind_eq_ok_iff.mp h
    obtain ⟨-, rfl⟩ := pure_eq_ok_iff.mp h
    obtain ⟨semicolon, hk, hw⟩ := advance_of_discard_expectOr he
    obtain ⟨tokens, hu, -⟩ := (reads_of_bindingIn hb).reads
    exact ⟨tokens, semicolon, hk, hu.trans hw⟩

end Grammar

/-! ## Errors of type -/

/-- An operator or an operand cannot be typed. -/
inductive Failure.OfTyping : Failure → Prop
  | undetermined (id : String) (line : UInt32) : OfTyping (.refused ⟨.undeterminedType id, line⟩)
  | unary (operator operand : String) (line : UInt32) :
      OfTyping (.refused ⟨.unaryMismatch operator operand, line⟩)
  | binary (operator left right : String) (line : UInt32) :
      OfTyping (.refused ⟨.binaryMismatch operator left right, line⟩)

namespace Tree

theorem ofTyping_of_blockagePair {table : TypingTable} {operator : Token} {left right : Tree}
    {d : Diagnostic} (h : blockagePair table operator left right = some d) :
    (Failure.refused d).OfTyping := by
  unfold blockagePair at h
  split at h
  · cases h
    exact .undetermined _ _
  · cases h
    exact .undetermined _ _
  · split at h <;> cases h
    exact .binary ..

theorem ofTyping_of_blockage {table : TypingTable} {node : Tree} {d : Diagnostic}
    (h : blockage table node = some d) : (Failure.refused d).OfTyping := by
  cases node with
  | unary operator _ operand =>
    rw [blockage] at h
    split at h
    · cases h
      exact .undetermined _ _
    · split at h <;> cases h
      exact .unary ..
  | binary | assignment => exact ofTyping_of_blockagePair h
  | _ => cases h

/-- A type check is stopped by an operator or an operand that cannot be typed. -/
theorem ofTyping_of_check {table : TypingTable} {tree : Tree} {d : Diagnostic}
    (h : (tree.check table).fault = some d) : (Failure.refused d).OfTyping := by
  have hsweep := (swept table tree).sweep.fault_eq
  rw [h] at hsweep
  obtain ⟨_, -, hblockage⟩ := List.exists_of_findSome?_eq_some hsweep.symm
  exact ofTyping_of_blockage hblockage

end Tree

/-! ## The course of a parse -/

/-- The token that an event says was read from the source. -/
def Event.token? : Event → Option Token
  | scanned token => some token
  | _ => none

/-- The tokens that were read from the source, the latest first. -/
def Journal.tokens (journal : Journal) : List Token := journal.filterMap Event.token?

/-- Two states that differ at most in events of their journals that do not read a token. -/
structure SameCourse (s t : ParseState) : Prop where
  scanner : s.tokens.scanner = t.tokens.scanner
  ahead : s.tokens.ahead = t.tokens.ahead
  pulled : s.tokens.journal.tokens = t.tokens.journal.tokens
  scopes : s.scopes = t.scopes
  depth : s.depth = t.depth
  previous : s.previous = t.previous

namespace SameCourse

variable {s t u : ParseState}

theorem refl (s : ParseState) : SameCourse s s := ⟨rfl, rfl, rfl, rfl, rfl, rfl⟩

theorem symm (h : SameCourse s t) : SameCourse t s :=
  ⟨h.scanner.symm, h.ahead.symm, h.pulled.symm, h.scopes.symm, h.depth.symm, h.previous.symm⟩

theorem trans (h : SameCourse s t) (h' : SameCourse t u) : SameCourse s u :=
  ⟨h.scanner.trans h'.scanner, h.ahead.trans h'.ahead, h.pulled.trans h'.pulled,
    h.scopes.trans h'.scopes, h.depth.trans h'.depth, h.previous.trans h'.previous⟩

theorem note {e : Event} (h : e.token? = none) (s : ParseState) : SameCourse (s.note e) s :=
  ⟨rfl, rfl, List.filterMap_cons_none h, rfl, rfl, rfl⟩

end SameCourse

theorem token?_of_checkEvent? {cause : Cause} {e : Event} (h : cause.checkEvent? = some e) :
    e.token? = none := by
  cases cause <;> cases h <;> rfl

namespace Grammar

/-- What becomes of an expression that has been read up to the state `t`: it is typed, or refused
for its types. -/
inductive Concluded (v : Vocabulary) (form : Option Tree) (t : ParseState) :
    Except Failure (Option Tree) × ParseState → Prop
  | typed {result : Option Tree} (form_eq : result.map Tree.bare = form.map Tree.bare) :
      Concluded v form t (.ok result, t)
  | refused {e : Failure} {u : ParseState} (cause : e.OfTyping) (course : SameCourse u t)
      (stays : Takes v t.tokens [] u.tokens) (found : form.isSome = true) :
      Concluded v form t (.error e, u)

theorem exists_noteFault (v : Vocabulary) (d : Diagnostic) (t : ParseState) :
    ∃ u, noteFault d t = .ok () u ∧ SameCourse u t ∧ Takes v t.tokens [] u.tokens := by
  unfold noteFault
  rcases he : d.cause.checkEvent? with _ | e
  · exact ⟨t, rfl, .refl t, .refl _⟩
  · exact ⟨t.note e, rfl, .note (token?_of_checkEvent? he) t, .note e (.refl _)⟩

theorem concluded_typedForm (g : Grammar) (form : Option Tree) (t : ParseState) :
    Concluded g.vocabulary form t (attempt (g.typedForm form) t) := by
  rcases form with _ | tree
  · exact .typed rfl
  · rw [typedForm, attempt_map, typed]
    have hbare := Tree.bare_check g.typing tree
    rcases hc : tree.check g.typing with ⟨checked, _ | d⟩
    · rw [hc] at hbare
      exact .typed (congrArg some hbare)
    · obtain ⟨u, hu, hcourse, hstays⟩ := exists_noteFault g.vocabulary d t
      rw [attempt_bind, attempt_of_ok hu]
      exact .refused (Tree.ofTyping_of_check (congrArg Checked.fault hc)) hcourse hstays rfl

namespace Concluded

variable {v : Vocabulary} {form result : Option Tree} {t : ParseState}
  {x : Except Failure (Option Tree) × ParseState}

theorem course (h : Concluded v form t x) : SameCourse x.2 t := by
  cases h with
  | typed => exact .refl t
  | refused _ course => exact course

theorem ofTyping {e : Failure} (h : Concluded v form t x) (he : x.1 = .error e) : e.OfTyping := by
  cases h with
  | typed => cases he
  | refused cause =>
    cases he
    exact cause

theorem bare_eq (h : Concluded v form t x) (hr : x.1 = .ok result) :
    result.map Tree.bare = form.map Tree.bare := by
  cases h with
  | typed form_eq =>
    cases hr
    exact form_eq
  | refused => cases hr

end Concluded

/-- An expression is read without types, and typed then. -/
theorem attempt_expression (g : Grammar) (table : TypingTable) (s : ParseState) :
    attempt (g.withTyping table).expression s =
      attempt (g.formIn (g.maxDepth - s.depth) >>= (g.withTyping table).typedForm) s := by
  rw [← formIn_withTyping g table, ← expressionIn_eq]
  rfl

/-- **An error of form comes before an error of type, whatever the typing table says.** Expressions
are read alike with two tables, and then typed or refused for a type. -/
theorem form_before_types (g : Grammar) (table table' : TypingTable) (s : ParseState) :
    let one := attempt (g.withTyping table).expression s
    let other := attempt (g.withTyping table').expression s
    SameCourse one.2 other.2 ∧
    (∀ e : Failure, one.1 = .error e → ¬e.OfTyping → other = one) ∧
    ∀ result : Option Tree, one.1 = .ok result →
      (∃ result', other.1 = .ok result' ∧ result'.map Tree.bare = result.map Tree.bare) ∨
      ∃ e tokens semicolon, other.1 = .error e ∧ e.OfTyping ∧ semicolon.kind = .semicolon ∧
        Takes g.vocabulary s.tokens (tokens ++ [semicolon]) other.2.tokens := by
  rw [attempt_expression, attempt_expression, attempt_bind, attempt_bind]
  rcases hf : g.formIn (g.maxDepth - s.depth) s with ⟨form, t⟩ | ⟨e, t⟩
  · -- The expression has been read. What the tables say of it is all that is left.
    rw [attempt_of_ok hf]
    have hone := (g.withTyping table).concluded_typedForm form t
    have hother := (g.withTyping table').concluded_typedForm form t
    refine ⟨hone.course.trans hother.course.symm, fun e he hne => absurd (hone.ofTyping he) hne,
      fun result hr => ?_⟩
    dsimp only
    generalize attempt ((g.withTyping table').typedForm form) t = y at hother ⊢
    cases hother with
    | typed form_eq => exact .inl ⟨_, rfl, form_eq.trans (hone.bare_eq hr).symm⟩
    | refused cause course stays found =>
      obtain ⟨tree, rfl⟩ := Option.isSome_iff_exists.mp found
      obtain ⟨tokens, semicolon, hk, hadvance⟩ := semicolon_of_formIn hf
      refine .inr ⟨_, tokens, semicolon, rfl, cause, hk, ?_⟩
      have htakes := hadvance.takes.trans stays
      rwa [List.append_nil] at htakes
  · rw [attempt_of_error hf]
    exact ⟨.refl t, fun _ _ _ => rfl, nofun⟩

/-- The sum `1+2` has a type by the standard table and none by the empty one; what is wrong with
`1+` is found by both. -/
theorem form_before_types_sum :
    (∃ result,
      let one := attempt (standard .standard .standard 9).expression (.ofSource (.ofString "1+2;"))
      let other := attempt (standard .standard .empty 9).expression (.ofSource (.ofString "1+2;"))
      one.1 = .ok result ∧
        ((∃ result', other.1 = .ok result' ∧ result'.map Tree.bare = result.map Tree.bare) ∨
        ∃ e tokens semicolon, other.1 = .error e ∧ e.OfTyping ∧ semicolon.kind = .semicolon ∧
          Takes .standard (ofSource (.ofString "1+2;")) (tokens ++ [semicolon]) other.2.tokens)) ∧
    (attempt (standard .standard .standard 9).expression (.ofSource (.ofString "1+;"))).1 =
        .error (.refused ⟨.expectedOperand "+", 1⟩) ∧
      attempt (standard .standard .empty 9).expression (.ofSource (.ofString "1+;")) =
        attempt (standard .standard .standard 9).expression (.ofSource (.ofString "1+;")) := by
  obtain ⟨tree, t, ht, -⟩ := exists_of_valueOf (f := Tree.rank) (b := 2) <|
    show (valueOf ((standard .standard .standard 9).expression
      (.ofSource (.ofString "1+2;")))).map (Option.map Tree.rank) = some (some 2) by
        decide +kernel
  obtain ⟨u, hu⟩ := exists_of_failureOf <|
    show failureOf ((standard .standard .standard 9).expression (.ofSource (.ofString "1+;"))) =
      some (.refused ⟨.expectedOperand "+", 1⟩) by decide +kernel
  have hsum := congrArg Prod.fst (attempt_of_ok ht)
  have hform := congrArg Prod.fst (attempt_of_error hu)
  obtain ⟨-, -, hok⟩ := form_before_types (standard .standard .standard 9) .standard .empty
    (.ofSource (.ofString "1+2;"))
  obtain ⟨-, herror, -⟩ := form_before_types (standard .standard .standard 9) .standard .empty
    (.ofSource (.ofString "1+;"))
  exact ⟨⟨some tree, hsum, hok _ hsum⟩, hform, herror _ hform nofun⟩

end Grammar

end ExprLang
