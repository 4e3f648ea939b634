import ExprLang.Proofs.Language.Kinds
import ExprLang.Proofs.Lexing.Yields
import ExprLang.Proofs.Printing.Print
import ExprLang.Proofs.Printing.WellFormed

/-!
# The lexemes of a printed program

The scanner finds in the text of a well-formed program just the lexemes it was printed with.

* `lexeme_of_producible`: what some source contains is spelled as its kind allows.
* `lexes_word`, `lexes_operator`: single lexemes in front of a text.
* **`lexes_render`**, **`lexes_printAll`**: the texts of expressions, and of whole programs.
-/

namespace ExprLang

open Scanner Vocabulary

/-! ## Lexemes of the standard language -/

theorem lexeme_of_producible {v : Vocabulary} {token : Token} (h : Producible v token)
    (hk : token.kind ≠ .eof) : Lexeme v token.kind token.value := by
  obtain ⟨source, tokens, stream, found, ht, hmem, hsame⟩ := h
  obtain ⟨hkind, hvalue⟩ := Token.same_iff.mp hsame
  obtain ⟨last, hlast, hu, htokens⟩ := TokenStream.upcoming_of_tokenize ht
  rw [htokens] at hmem
  rcases List.mem_append.mp hmem with hmem | hmem
  · rw [← hkind, ← hvalue]
    refine lexeme_of_upcoming (TokenStream.ofSource source).scanner found ?_
    rw [← TokenStream.upcoming_of_none rfl, hu]
    exact hmem
  · obtain rfl := List.mem_singleton.mp hmem
    exact absurd (hkind.symm.trans hlast) hk

/-- The characters that make a longer operator of a shorter one. -/
def extensions : List Char := ['=', '|', '&', '*']

/-- Whether a lexeme is reserved for an operator. -/
def isOperator : Reserved → Bool
  | .operator _ => true
  | _ => false

theorem mem_extensions {value : String} {c : Char} {kind : Kind} (hv : value ≠ "")
    (h : standard.operatorKind? (value.push c) = some kind) :
    c ∈ extensions ∧ value.toList.head? ∉ [some '(', some ')'] := by
  obtain ⟨op, -, hmem⟩ := exists_of_operatorKind? h
  have hall : ∀ e ∈ standard.lexemes.entries, isOperator e.2 = true → e.1.toList.length ≤ 1 ∨
      e.1.toList.getLast?.all extensions.contains = true ∧
        e.1.toList.head? ∉ [some '(', some ')'] := by
    decide
  have hne : value.toList ≠ [] := fun h => hv (String.toList_eq_nil_iff.mp h)
  obtain ⟨d, cs, hcs⟩ := List.exists_cons_of_ne_nil hne
  rcases hall _ hmem rfl with hlen | ⟨hlast, hhead⟩
  · simp [hcs] at hlen
  · rw [String.toList_push, List.getLast?_append, List.getLast?_singleton] at hlast
    rw [String.toList_push, hcs] at hhead
    exact ⟨List.contains_iff_mem.mp hlast, hcs ▸ hhead⟩

theorem separate_of_head {value : String} {c : Char} {rest : List Char} (hv : value ≠ "")
    (hc : c ∉ extensions) : Separate standard value (c :: rest) := by
  rintro _ ⟨⟩
  rcases h : standard.operatorKind? (value.push c) with _ | kind
  · rfl
  · exact absurd (mem_extensions hv h).1 hc

theorem separate_bracket {value : String} {rest : List Char}
    (hv : value.toList.head? ∈ [some '(', some ')']) : Separate standard value rest := by
  intro c _
  rcases h : standard.operatorKind? (value.push c) with _ | kind
  · rfl
  · refine absurd hv (mem_extensions ?_ h).2
    rintro rfl
    revert hv
    decide

theorem yields_standard {kind : Kind} {value : String} {rest : List Char}
    (hk : standard.operatorKind? value = some kind) (hdot : kind ≠ .dot)
    (hr : Separate standard value rest) : Yields standard kind value rest := by
  obtain ⟨op, rfl, hmem⟩ := exists_of_operatorKind? hk
  have hall : ∀ e ∈ standard.lexemes.entries, isOperator e.2 = true →
      reservedKind? e.2 ≠ some .dot →
        grows standard "" e.1.toList = true ∧ e.1.toList.head?.any startsOperator = true := by
    decide
  obtain ⟨hgrows, hstarts⟩ := hall _ hmem rfl fun h => hdot (Option.some.inj h)
  exact yields_operator hk hgrows hstarts hr

theorem delimited_of_head {c : Char} {rest : List Char} (hc : c ∈ [' ', ')']) :
    Delimited standard (c :: rest) := by
  rintro _ ⟨⟩
  simp only [List.mem_cons, List.not_mem_nil, or_false] at hc
  rcases hc with rfl | rfl
  · exact ⟨rfl, rfl⟩
  · exact ⟨rfl, rfl⟩

/-- A text that is a word. -/
def isWord (text : String) : Bool :=
  text.toList.head?.any startsWord && text.toList.all continuesWord

theorem yields_of_isWord {kind : Kind} {value : String} {rest : List Char}
    (hk : standard.classify value = kind) (hw : isWord value = true)
    (hr : Delimited standard rest) : Yields standard kind value rest := by
  obtain ⟨hs, ha⟩ := Bool.and_eq_true_iff.mp hw
  obtain ⟨c, hc, hs⟩ := (Option.any_eq_true _ _).mp hs
  obtain ⟨cs, hcs⟩ := List.head?_eq_some_iff.mp hc
  rw [hcs, List.all_cons, Bool.and_eq_true, List.all_eq_true] at ha
  have hv : value = String.ofList (c :: cs) := by rw [← hcs, String.ofList_toList]
  subst hk
  rw [hv]
  exact yields_word hs ha.2 hr

theorem yields_typeName {type : DataType} {rest : List Char}
    (h : standard.typeNamed? type.id = some type) (hr : Delimited standard rest) :
    Yields standard .typeName type.id rest := by
  have hall : ∀ e ∈ standard.lexemes.entries, isOperator e.2 = false → isWord e.1 = true := by
    decide
  unfold typeNamed? at h
  rcases hl : standard.lookup type.id with _ | _ | found | _ <;> rw [hl] at h
  · cases h
  · cases h
  · refine yields_of_isWord ?_ (hall _ (Table.mem_of_get? hl) rfl) hr
    unfold classify
    rw [hl]
  · cases h

/-- The kinds of tokens that are spelled in many ways. -/
def spelledKinds : List Kind := .identifier :: literalKinds

theorem yields_of_lexeme {kind : Kind} {value : String} {rest : List Char}
    (h : Lexeme standard kind value) (hk : kind ∈ spelledKinds) (hr : Delimited standard rest) :
    Yields standard kind value rest := by
  cases h with
  | word starts continues => exact yields_word starts continues hr
  | number digits => exact yields_number digits hr
  | scientific digits signed power => exact yields_scientific digits signed power hr
  | operator registered =>
    obtain ⟨op, rfl, hmem⟩ := exists_of_operatorKind? registered
    have hall : ∀ e ∈ standard.lexemes.entries, isOperator e.2 = true →
        ∀ k ∈ spelledKinds, reservedKind? e.2 ≠ some k := by
      decide
    exact absurd rfl (hall _ hmem rfl _ hk)

theorem yields_producible {token : Token} {rest : List Char} (h : Producible standard token)
    (hk : token.kind ∈ spelledKinds) (hr : Delimited standard rest) :
    Yields standard token.kind token.value rest := by
  refine yields_of_lexeme (lexeme_of_producible h ?_) hk hr
  exact (by decide : ∀ k ∈ spelledKinds, k ≠ .eof) _ hk

/-! ## Single lexemes -/

variable {rest : List Char} {lexemes : List (Kind × String)}

theorem lexes_spelled {token : Token} {c : Char} (h : Lexes standard (c :: rest) lexemes)
    (hp : Producible standard token) (hk : token.kind ∈ spelledKinds) (hc : c ∈ [' ', ')']) :
    Lexes standard (token.value.toList ++ c :: rest) (token.lexeme :: lexemes) := by
  refine h.lexeme (yields_producible hp hk (delimited_of_head hc)) ?_
  exact (by decide : ∀ k ∈ spelledKinds, k ≠ .eof) _ hk

theorem ne_empty_of_operatorKind? {value : String} {kind : Kind}
    (h : standard.operatorKind? value = some kind) : value ≠ "" := by
  rintro rfl
  have hnone : standard.operatorKind? "" = none := by decide
  rw [hnone] at h
  cases h

theorem lexes_operator {kind : Kind} {value : String} {c : Char}
    (h : Lexes standard (c :: rest) lexemes) (hk : standard.operatorKind? value = some kind)
    (hvisible : kind ∉ [.dot, .eof]) (hc : c ∉ extensions) :
    Lexes standard (value.toList ++ c :: rest) ((kind, value) :: lexemes) := by
  simp only [List.mem_cons, List.not_mem_nil, or_false, not_or] at hvisible
  refine h.lexeme (yields_standard hk hvisible.1 ?_) hvisible.2
  exact separate_of_head (ne_empty_of_operatorKind? hk) hc

theorem yields_openParen : Yields standard .openParen "(" rest :=
  yields_standard (by decide) (by decide) (separate_bracket (by decide))

theorem yields_closeParen : Yields standard .closeParen ")" rest :=
  yields_standard (by decide) (by decide) (separate_bracket (by decide))

theorem lexes_bracketed {cs : List Char} {xs : List (Kind × String)}
    (h : ∀ {rest lexemes}, Lexes standard (')' :: rest) lexemes →
      Lexes standard (cs ++ ')' :: rest) (xs ++ lexemes))
    (hr : Lexes standard rest lexemes) :
    Lexes standard ('(' :: (cs ++ ')' :: rest)) (Tree.bracketed xs ++ lexemes) := by
  have hclose := h (hr.lexeme yields_closeParen (by decide))
  rw [Tree.bracketed, List.cons_append, List.append_assoc]
  exact hclose.lexeme yields_openParen (by decide)

/-! ## Expressions -/

theorem exists_render {v : Vocabulary} {table : TypingTable} {view : View} {tree : Tree}
    (h : Expressible v table view tree) : ∃ cs, tree.render.toList = '(' :: cs := by
  cases h <;> rw [Tree.render] <;> exact ⟨_, by simp [toString]; rfl⟩

theorem toList_render_name (token : Token) (type : Option DataType) (assignable : Bool) :
    (Tree.reference token type assignable).render.toList =
      '(' :: (token.value.toList ++ [')']) := by
  rw [Tree.render]
  simp [toString]

theorem toList_render_pair (operator : Token) (type : Option DataType) (left right : Tree) :
    (Tree.binary operator type left right).render.toList =
      '(' :: ((left.render.toList ++ (operator.value.toList ++ right.render.toList)) ++ [')']) := by
  rw [Tree.render]
  simp [toString]

/-- An operator in front of an expression. -/
theorem lexes_before {v : Vocabulary} {table : TypingTable} {view : View} {operator : Token}
    {operand : Tree} {cs : List Char} (hr : Registered standard operator)
    (hk : operator.kind ∈ signKinds ++ infixKinds) (ho : Expressible v table view operand)
    (h : Lexes standard (operand.render.toList ++ cs) lexemes) :
    Lexes standard (operator.value.toList ++ (operand.render.toList ++ cs))
      (operator.lexeme :: lexemes) := by
  obtain ⟨others, ho⟩ := exists_render ho
  rw [ho, List.cons_append] at h ⊢
  refine lexes_operator h hr ?_ (by decide)
  exact (by decide : ∀ k ∈ signKinds ++ infixKinds, k ∉ [Kind.dot, .eof]) _ hk

theorem lexes_pair {table : TypingTable} {view : View} {operator : Token}
    {type : Option DataType} {left right : Tree} (hr : Registered standard operator)
    (hk : operator.kind ∈ infixKinds) (ho : Expressible standard table view right)
    (hl : ∀ {rest lexemes}, Lexes standard rest lexemes →
      Lexes standard (left.render.toList ++ rest) (left.lexemes ++ lexemes))
    (hright : ∀ {rest lexemes}, Lexes standard rest lexemes →
      Lexes standard (right.render.toList ++ rest) (right.lexemes ++ lexemes))
    (h : Lexes standard rest lexemes) :
    Lexes standard ((Tree.binary operator type left right).render.toList ++ rest)
      ((Tree.binary operator type left right).lexemes ++ lexemes) := by
  rw [toList_render_pair, List.cons_append, List.append_assoc]
  refine lexes_bracketed (fun h => ?_) h
  have hoperator := lexes_before hr (List.mem_append_right _ hk) ho (hright h)
  simpa [List.append_assoc] using hl hoperator

/-- **The lexemes of a rendered expression.** -/
theorem lexes_render {table : TypingTable} {view : View} {tree : Tree}
    (h : Expressible standard table view tree) (hr : Lexes standard rest lexemes) :
    Lexes standard (tree.render.toList ++ rest) (tree.lexemes ++ lexemes) := by
  induction h generalizing rest lexemes with
  | @literal token type found producible known typed =>
    have hkind := literalType?_standard token.kind
    rw [known, Option.isSome_some] at hkind
    change Lexes standard ((Tree.reference token none true).render.toList ++ rest) _
    rw [toList_render_name, List.cons_append, List.append_assoc]
    refine lexes_bracketed (fun h => ?_) hr
    exact lexes_spelled h producible (List.mem_cons_of_mem _ (of_decide_eq_true hkind.symm))
      (by decide)
  | reference named producible _ _ _ =>
    rw [toList_render_name, List.cons_append, List.append_assoc]
    refine lexes_bracketed (fun h => ?_) hr
    exact lexes_spelled h producible (named ▸ List.mem_cons_self) (by decide)
  | @unary operator type operand x result sign registered inner _ _ _ ih =>
    have hrender : (Tree.unary operator type operand).render.toList =
        '(' :: ((operator.value.toList ++ operand.render.toList) ++ [')']) := by
      rw [Tree.render]
      simp [toString]
    rw [hrender, List.cons_append, List.append_assoc]
    refine lexes_bracketed (fun h => ?_) hr
    rw [List.append_assoc]
    exact lexes_before registered (List.mem_append_left _ sign) inner (ih h)
  | binary joins _ registered _ second _ _ _ ihl ihr =>
    exact lexes_pair registered joins second ihl ihr hr
  | @assignment operator token type old value _ _ _ assigns registered _ source _ _ _ ihl ihr =>
    have hrender : (Tree.assignment operator type (.reference token old true) value).render =
        (Tree.binary operator type (.reference token old true) value).render := rfl
    rw [hrender]
    exact lexes_pair registered (assigns ▸ by decide) source ihl ihr hr

/-! ## Statements and blocks -/

theorem lexes_space (h : Lexes standard rest lexemes) : Lexes standard (' ' :: rest) lexemes :=
  h.blank (by decide)

theorem lexes_keyword (assignable : Bool) (h : Lexes standard (' ' :: rest) lexemes) :
    Lexes standard ((Tree.keyword assignable).toList ++ ' ' :: rest)
      ((if assignable then .varDecl else .constDecl, Tree.keyword assignable) :: lexemes) := by
  refine h.lexeme (yields_of_isWord ?_ ?_ (delimited_of_head (by decide))) ?_
  · cases assignable <;> decide
  · cases assignable <;> decide
  · cases assignable <;> decide

theorem lexes_heading {view : View} {name : Token} {type : Option DataType} (assignable : Bool)
    (hd : Declares standard view name type) (h : Lexes standard (' ' :: rest) lexemes) :
    Lexes standard ((Tree.heading name type assignable).toList ++ ' ' :: rest)
      (Tree.headingLexemes name type assignable ++ lexemes) := by
  obtain ⟨found, hknown, hsame⟩ := hd.known
  have htype : Tree.typeName type = found.id := by
    obtain ⟨t, rfl, hid⟩ := Option.map_eq_some_iff.mp (DataType.sameOption_iff.mp hsame)
    exact hid
  have hname : name.kind ∈ spelledKinds := by
    rw [hd.named]
    decide
  have htyping := h.lexeme (yields_typeName hknown (delimited_of_head (by decide))) (by decide)
  have hcolon := lexes_operator (lexes_space htyping)
    (show standard.operatorKind? ":" = some .colon by decide) (by decide) (by decide)
  have hall := lexes_keyword assignable
    (lexes_space (lexes_spelled (lexes_space hcolon) hd.producible hname (by decide)))
  rw [← htype] at hall
  simpa [Tree.heading, Tree.headingLexemes] using hall

theorem lexes_semicolon (h : Lexes standard (' ' :: rest) lexemes) :
    Lexes standard (' ' :: ';' :: ' ' :: rest) ((.semicolon, ";") :: lexemes) :=
  lexes_space (lexes_operator h
    (show standard.operatorKind? ";" = some .semicolon by decide) (by decide) (by decide))

theorem print_of_expressible {v : Vocabulary} {table : TypingTable} {view : View} {tree : Tree}
    (h : Expressible v table view tree) :
    tree.print = tree.render ++ " ;" ∧
      tree.unitLexemes = tree.lexemes ++ [(.semicolon, ";")] := by
  cases h <;> exact ⟨rfl, rfl⟩

/-- **The lexemes of a printed program.** -/
theorem lexes_printAll {table : TypingTable} {view : View} {trees : List Tree}
    (h : WellFormed standard table view trees) (hr : Lexes standard rest lexemes) :
    Lexes standard ((Tree.printAll trees).toList ++ rest)
      (Tree.unitsLexemes trees ++ lexemes) := by
  induction h generalizing rest lexemes with
  | nil => exact hr
  | expression first _ ih =>
    obtain ⟨hprint, hlexemes⟩ := print_of_expressible first
    have hunit := lexes_render first (lexes_semicolon (lexes_space (ih hr)))
    rw [Tree.printAll, Tree.unitsLexemes, hprint, hlexemes]
    simpa using hunit
  | @bare view name type assignable others declares _ ih =>
    have hunit := lexes_heading assignable declares (lexes_semicolon (lexes_space (ih hr)))
    rw [Tree.printAll, Tree.unitsLexemes, Tree.print, Tree.unitLexemes]
    simpa using hunit
  | @initialized view operator name result type assignable value others declares _ _ source _ _
      ih =>
    have hvalue := lexes_render source (lexes_semicolon (lexes_space (ih hr)))
    have hequals := lexes_operator (lexes_space hvalue)
      (show standard.operatorKind? "=" = some .assignment by decide) (by decide) (by decide)
    have hunit := lexes_heading assignable declares (lexes_space hequals)
    rw [Tree.printAll, Tree.unitsLexemes, Tree.print, Tree.unitLexemes]
    simpa using hunit
  | block _ _ _ ih ih' =>
    have hclose := lexes_operator (lexes_space (ih' hr))
      (show standard.operatorKind? "\x7d" = some .closeCurly by decide) (by decide)
      (by decide)
    have hunit := lexes_operator (lexes_space (ih hclose))
      (show standard.operatorKind? "\x7b" = some .openCurly by decide) (by decide)
      (by decide)
    rw [Tree.printAll, Tree.unitsLexemes, Tree.print, Tree.unitLexemes]
    simpa using hunit

end ExprLang
