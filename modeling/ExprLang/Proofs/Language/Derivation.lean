import ExprLang.Token

/-!
# The grammar of the standard language

    program    = { unit }
    unit       = ";" | declaration | expression ";" | "{" program "}"
    declaration = ( "var" | "const" ) name [ ":" type ] [ "=" expression ] ";"
    expression = operand { infix operand }
    operand    = { "+" | "-" } primary
    primary    = literal | name | "(" expression ")"

* `Derives`: the tokens of each part, by their kinds alone. It knows no precedence.
* `Derives.head`: the tokens with which operands and expressions start.
* `Derives.program_last`: the tokens with which programs end.
* `Derives.mem_programKinds`: the kinds of the tokens of programs.
* **`Derives.of_kinds`**: the grammar sees kinds only.
-/

namespace ExprLang

/-- The parts of the grammar. -/
inductive Part where
  | primary
  | operand
  | expression
  /-- A type clause, or nothing. -/
  | typing
  /-- An initializer, or nothing. -/
  | initializer
  | unit
  | program

/-- The kinds of literals. -/
def literalKinds : List Kind := [.intLiteral, .floatLiteral, .boolLiteral]

/-- The kinds of operators that stand before their operand. -/
def signKinds : List Kind := [.plus, .dash]

/-- The kinds of operators that stand between their operands. -/
def infixKinds : List Kind :=
  [.or, .and, .pipe, .ampersand, .equals, .notEquals, .assignment, .less, .greater, .lessEquals,
    .greaterEquals, .plus, .dash, .star, .slash, .percent, .pow]

/-- The kinds that start a declaration. -/
def declaratorKinds : List Kind := [.varDecl, .constDecl]

/-- `Derives part tokens`: the tokens are such a part of a program. -/
inductive Derives : Part → List Token → Prop
  | literal {token : Token} (kind : token.kind ∈ literalKinds) : Derives .primary [token]
  | name {token : Token} (kind : token.kind = .identifier) : Derives .primary [token]
  | group {opening closing : Token} {tokens : List Token} (opens : opening.kind = .openParen)
      (content : Derives .expression tokens) (closes : closing.kind = .closeParen) :
      Derives .primary (opening :: (tokens ++ [closing]))
  | plain {tokens : List Token} (primary : Derives .primary tokens) : Derives .operand tokens
  | sign {operator : Token} {tokens : List Token} (kind : operator.kind ∈ signKinds)
      (operand : Derives .operand tokens) : Derives .operand (operator :: tokens)
  | single {tokens : List Token} (operand : Derives .operand tokens) : Derives .expression tokens
  | join {operator : Token} {xs ys : List Token} (first : Derives .operand xs)
      (kind : operator.kind ∈ infixKinds) (others : Derives .expression ys) :
      Derives .expression (xs ++ operator :: ys)
  | unannotated : Derives .typing []
  | annotated {colon name : Token} (mark : colon.kind = .colon) (kind : name.kind = .typeName) :
      Derives .typing [colon, name]
  | uninitialized : Derives .initializer []
  | initialized {operator : Token} {tokens : List Token} (mark : operator.kind = .assignment)
      (value : Derives .expression tokens) : Derives .initializer (operator :: tokens)
  | semicolon {token : Token} (mark : token.kind = .semicolon) : Derives .unit [token]
  | declaration {keyword name token : Token} {clause value : List Token}
      (starts : keyword.kind ∈ declaratorKinds) (named : name.kind = .identifier)
      (typing : Derives .typing clause) (initializer : Derives .initializer value)
      (mark : token.kind = .semicolon) :
      Derives .unit (keyword :: name :: (clause ++ (value ++ [token])))
  | expression {token : Token} {tokens : List Token} (content : Derives .expression tokens)
      (mark : token.kind = .semicolon) : Derives .unit (tokens ++ [token])
  | block {opening closing : Token} {tokens : List Token} (opens : opening.kind = .openCurly)
      (content : Derives .program tokens) (closes : closing.kind = .closeCurly) :
      Derives .unit (opening :: (tokens ++ [closing]))
  | nil : Derives .program []
  | cons {xs ys : List Token} (first : Derives .unit xs) (others : Derives .program ys) :
      Derives .program (xs ++ ys)

/-- Nothing, or an operator and what stands to its right. -/
def Extends (tokens : List Token) : Prop :=
  tokens = [] ∨ ∃ operator rest, tokens = operator :: rest ∧ operator.kind ∈ infixKinds ∧
    Derives .expression rest

theorem Derives.extend_operand {xs ys : List Token} (h : Derives .operand xs) (h' : Extends ys) :
    Derives .expression (xs ++ ys) := by
  rcases h' with rfl | ⟨operator, rest, rfl, hk, hr⟩
  · rw [List.append_nil]
    exact .single h
  · exact .join h hk hr

theorem Derives.extend {xs ys : List Token} (h : Derives .expression xs) (h' : Extends ys) :
    Derives .expression (xs ++ ys) := by
  generalize hp : Part.expression = part at h
  induction h with
  | single operand _ => exact operand.extend_operand h'
  | join first kind _ _ ih =>
    rw [List.append_assoc, List.cons_append]
    exact .join first kind (ih rfl)
  | _ => cases hp

theorem Derives.exists_operand {tokens : List Token} (h : Derives .expression tokens) :
    ∃ xs ys, tokens = xs ++ ys ∧ Derives .operand xs ∧ Extends ys := by
  cases h with
  | single operand => exact ⟨tokens, [], (List.append_nil _).symm, operand, .inl rfl⟩
  | join first kind others => exact ⟨_, _, rfl, first, .inr ⟨_, _, rfl, kind, others⟩⟩

/-- The kinds with which operands start. -/
def headKinds : List Kind := literalKinds ++ signKinds ++ [.identifier, .openParen]

theorem Derives.head {part : Part} {tokens : List Token} (h : Derives part tokens)
    (hp : part = .primary ∨ part = .operand ∨ part = .expression) :
    ∃ token rest, tokens = token :: rest ∧ token.kind ∈ headKinds := by
  induction h with
  | literal kind =>
    refine ⟨_, [], rfl, ?_⟩
    unfold headKinds
    rw [List.mem_append, List.mem_append]
    exact .inl (.inl kind)
  | name kind => exact ⟨_, [], rfl, by rw [kind]; decide⟩
  | group opens => exact ⟨_, _, rfl, by rw [opens]; decide⟩
  | sign kind =>
    refine ⟨_, _, rfl, ?_⟩
    unfold headKinds
    rw [List.mem_append, List.mem_append]
    exact .inl (.inr kind)
  | plain _ ih => exact ih (.inl rfl)
  | single _ ih => exact ih (.inr (.inl rfl))
  | join _ _ _ ih =>
    obtain ⟨token, rest, rfl, hk⟩ := ih (.inr (.inl rfl))
    exact ⟨token, _, rfl, hk⟩
  | _ => simp at hp

/-- The kinds with which units start. -/
def unitKinds : List Kind := headKinds ++ declaratorKinds ++ [.semicolon, .openCurly]

theorem Derives.unit_head {tokens : List Token} (h : Derives .unit tokens) :
    ∃ token rest, tokens = token :: rest ∧ token.kind ∈ unitKinds := by
  cases h with
  | semicolon mark => exact ⟨_, [], rfl, by rw [mark]; decide⟩
  | declaration starts =>
    refine ⟨_, _, rfl, ?_⟩
    exact (by decide : ∀ k ∈ declaratorKinds, k ∈ unitKinds) _ starts
  | expression content =>
    obtain ⟨token, rest, rfl, hk⟩ := content.head (.inr (.inr rfl))
    exact ⟨token, _, rfl, (by decide : ∀ k ∈ headKinds, k ∈ unitKinds) _ hk⟩
  | block opens => exact ⟨_, _, rfl, by rw [opens]; decide⟩

/-- The kinds with which units end. -/
def closingKinds : List Kind := [.semicolon, .closeCurly]

theorem Derives.unit_last {tokens : List Token} (h : Derives .unit tokens) :
    ∃ front last, tokens = front ++ [last] ∧ last.kind ∈ closingKinds := by
  cases h with
  | semicolon mark => exact ⟨[], _, rfl, by rw [mark]; decide⟩
  | @declaration keyword name token clause value _ _ _ _ mark =>
    exact ⟨keyword :: name :: (clause ++ value), token, by simp, by rw [mark]; decide⟩
  | expression _ mark => exact ⟨_, _, rfl, by rw [mark]; decide⟩
  | block _ _ closes => exact ⟨_ :: _, _, rfl, by rw [closes]; decide⟩

theorem Derives.program_last {tokens : List Token} (h : Derives .program tokens) :
    ∀ token ∈ tokens.getLast?, token.kind ∈ closingKinds := by
  generalize hp : Part.program = part at h
  induction h with
  | nil => exact nofun
  | @cons xs ys first _ _ ih =>
    obtain ⟨front, last, rfl, hlast⟩ := first.unit_last
    intro token ht
    rw [List.getLast?_append, List.getLast?_concat] at ht
    rcases hy : ys.getLast? with _ | found <;> rw [hy] at ht <;> cases ht
    · exact hlast
    · exact ih hp token hy
  | _ => cases hp

theorem Derives.exists_block {tokens : List Token} {first : Token}
    (h : Derives .unit (first :: tokens)) (hk : first.kind = .openCurly) :
    ∃ inner closing, tokens = inner ++ [closing] ∧ Derives .program inner ∧
      closing.kind = .closeCurly := by
  generalize hu : first :: tokens = unit at h
  cases h with
  | semicolon mark =>
    obtain ⟨rfl, -⟩ := List.cons.inj hu
    rw [mark] at hk
    cases hk
  | declaration starts =>
    obtain ⟨rfl, -⟩ := List.cons.inj hu
    rw [hk] at starts
    exact absurd starts (by decide)
  | expression content =>
    obtain ⟨token, rest, rfl, hf⟩ := content.head (.inr (.inr rfl))
    obtain ⟨rfl, -⟩ := List.cons.inj hu
    rw [hk] at hf
    exact absurd hf (by decide)
  | block _ content closes => exact ⟨_, _, (List.cons.inj hu).2, content, closes⟩

/-- The kinds of the tokens of programs. -/
def programKinds : List Kind :=
  literalKinds ++ signKinds ++ infixKinds ++ declaratorKinds ++
    [.identifier, .openParen, .closeParen, .openCurly, .closeCurly, .colon, .typeName, .semicolon]

theorem Derives.mem_programKinds {part : Part} {tokens : List Token} (h : Derives part tokens) :
    ∀ token ∈ tokens, token.kind ∈ programKinds := by
  have hlit : ∀ k ∈ literalKinds, k ∈ programKinds := by decide
  have hsign : ∀ k ∈ signKinds, k ∈ programKinds := by decide
  have hbetween : ∀ k ∈ infixKinds, k ∈ programKinds := by decide
  have hdecl : ∀ k ∈ declaratorKinds, k ∈ programKinds := by decide
  induction h with
  | literal kind => exact List.forall_mem_singleton.mpr (hlit _ kind)
  | name kind => exact List.forall_mem_singleton.mpr (by rw [kind]; decide)
  | group opens _ closes ih | block opens _ closes ih =>
    refine List.forall_mem_cons.mpr ⟨by rw [opens]; decide, ?_⟩
    exact List.forall_mem_append.mpr ⟨ih, List.forall_mem_singleton.mpr (by rw [closes]; decide)⟩
  | plain _ ih | single _ ih => exact ih
  | sign kind _ ih => exact List.forall_mem_cons.mpr ⟨hsign _ kind, ih⟩
  | join _ kind _ ih ih' =>
    exact List.forall_mem_append.mpr ⟨ih, List.forall_mem_cons.mpr ⟨hbetween _ kind, ih'⟩⟩
  | unannotated | uninitialized | nil => exact List.forall_mem_nil _
  | annotated mark kind =>
    refine List.forall_mem_cons.mpr ⟨by rw [mark]; decide, ?_⟩
    exact List.forall_mem_singleton.mpr (by rw [kind]; decide)
  | initialized mark _ ih => exact List.forall_mem_cons.mpr ⟨by rw [mark]; decide, ih⟩
  | semicolon mark => exact List.forall_mem_singleton.mpr (by rw [mark]; decide)
  | declaration starts named _ _ mark ih ih' =>
    refine List.forall_mem_cons.mpr ⟨hdecl _ starts, ?_⟩
    refine List.forall_mem_cons.mpr ⟨by rw [named]; decide, List.forall_mem_append.mpr ⟨ih, ?_⟩⟩
    exact List.forall_mem_append.mpr ⟨ih', List.forall_mem_singleton.mpr (by rw [mark]; decide)⟩
  | expression _ mark ih =>
    exact List.forall_mem_append.mpr ⟨ih, List.forall_mem_singleton.mpr (by rw [mark]; decide)⟩
  | cons _ _ ih ih' => exact List.forall_mem_append.mpr ⟨ih, ih'⟩

theorem Derives.ne_eof {part : Part} {tokens : List Token} (h : Derives part tokens) :
    ∀ token ∈ tokens, token.kind ≠ .eof :=
  fun token ht => (by decide : ∀ k ∈ programKinds, k ≠ .eof) _ (h.mem_programKinds token ht)

/-- **The grammar sees kinds only**: tokens of the same kinds are the same part. -/
theorem Derives.of_kinds {part : Part} {xs ys : List Token} (h : Derives part xs)
    (hk : ys.map Token.kind = xs.map Token.kind) : Derives part ys := by
  induction h generalizing ys with
  | literal kind =>
    obtain ⟨y, rfl, hy⟩ := List.map_eq_singleton_iff.mp hk
    exact .literal (hy ▸ kind)
  | name kind =>
    obtain ⟨y, rfl, hy⟩ := List.map_eq_singleton_iff.mp hk
    exact .name (hy.trans kind)
  | group opens _ closes ih =>
    obtain ⟨y, others, rfl, hy, ho⟩ := List.map_eq_cons_iff.mp hk
    rw [List.map_append] at ho
    obtain ⟨inner, behind, rfl, hi, hb⟩ := List.map_eq_append_iff.mp ho
    obtain ⟨z, rfl, hz⟩ := List.map_eq_singleton_iff.mp hb
    exact .group (hy.trans opens) (ih hi) (hz.trans closes)
  | plain _ ih => exact .plain (ih hk)
  | sign kind _ ih =>
    obtain ⟨y, others, rfl, hy, ho⟩ := List.map_eq_cons_iff.mp hk
    exact .sign (hy ▸ kind) (ih ho)
  | single _ ih => exact .single (ih hk)
  | join _ kind _ ih ih' =>
    rw [List.map_append] at hk
    obtain ⟨first, behind, rfl, hf, hb⟩ := List.map_eq_append_iff.mp hk
    obtain ⟨y, others, rfl, hy, ho⟩ := List.map_eq_cons_iff.mp hb
    exact .join (ih hf) (hy ▸ kind) (ih' ho)
  | unannotated =>
    obtain rfl := List.map_eq_nil_iff.mp hk
    exact .unannotated
  | annotated mark kind =>
    obtain ⟨y, others, rfl, hy, ho⟩ := List.map_eq_cons_iff.mp hk
    obtain ⟨z, rfl, hz⟩ := List.map_eq_singleton_iff.mp ho
    exact .annotated (hy.trans mark) (hz.trans kind)
  | uninitialized =>
    obtain rfl := List.map_eq_nil_iff.mp hk
    exact .uninitialized
  | initialized mark _ ih =>
    obtain ⟨y, others, rfl, hy, ho⟩ := List.map_eq_cons_iff.mp hk
    exact .initialized (hy.trans mark) (ih ho)
  | semicolon mark =>
    obtain ⟨y, rfl, hy⟩ := List.map_eq_singleton_iff.mp hk
    exact .semicolon (hy.trans mark)
  | declaration starts named _ _ mark ih ih' =>
    obtain ⟨y, others, rfl, hy, ho⟩ := List.map_eq_cons_iff.mp hk
    obtain ⟨z, more, rfl, hz, hm⟩ := List.map_eq_cons_iff.mp ho
    rw [List.map_append, List.map_append] at hm
    obtain ⟨clause, behind, rfl, hc, hb⟩ := List.map_eq_append_iff.mp hm
    obtain ⟨value, last, rfl, hv, hl⟩ := List.map_eq_append_iff.mp hb
    obtain ⟨w, rfl, hw⟩ := List.map_eq_singleton_iff.mp hl
    exact .declaration (hy ▸ starts) (hz.trans named) (ih hc) (ih' hv) (hw.trans mark)
  | expression _ mark ih =>
    rw [List.map_append] at hk
    obtain ⟨content, behind, rfl, hc, hb⟩ := List.map_eq_append_iff.mp hk
    obtain ⟨y, rfl, hy⟩ := List.map_eq_singleton_iff.mp hb
    exact .expression (ih hc) (hy.trans mark)
  | block opens _ closes ih =>
    obtain ⟨y, others, rfl, hy, ho⟩ := List.map_eq_cons_iff.mp hk
    rw [List.map_append] at ho
    obtain ⟨inner, behind, rfl, hi, hb⟩ := List.map_eq_append_iff.mp ho
    obtain ⟨z, rfl, hz⟩ := List.map_eq_singleton_iff.mp hb
    exact .block (hy.trans opens) (ih hi) (hz.trans closes)
  | nil =>
    obtain rfl := List.map_eq_nil_iff.mp hk
    exact .nil
  | cons _ _ ih ih' =>
    rw [List.map_append] at hk
    obtain ⟨first, others, rfl, hf, ho⟩ := List.map_eq_append_iff.mp hk
    exact .cons (ih hf) (ih' ho)

end ExprLang
