import ExprLang.Proofs.Language.Sound

/-!
# The tokens of a program in its trees

The nodes of an accepted program are rooted at the tokens of its text, in the order in which they
stand there, and none is left out but punctuation, declaration keywords and the names of types.

* `Tree.roots`: the root tokens of all nodes of a tree, in the order of the source.
* `silentKinds`, `voiced`: the kinds that leave no node, and the tokens of all others.
* `Reads.roots`, `Forms.roots`: the tokens of a phrase and of a passage.
* **`roots_of_parse`**: the tokens of an accepted program.
-/

namespace ExprLang

namespace Tree

mutual

/-- The root tokens of the nodes in the order of the source: an operator with one operand stands
before it, and one with two between them. -/
def roots : Tree → List Token
  | literal token _ | reference token _ _ | declaration token _ _ => [token]
  | unary operator _ operand => operator :: roots operand
  | binary operator _ left right | assignment operator _ left right =>
    roots left ++ operator :: roots right
  | empty => []
  | block statements => rootsAll statements

/-- The root tokens of trees, tree by tree. -/
def rootsAll : List Tree → List Token
  | [] => []
  | tree :: rest => roots tree ++ rootsAll rest

end

theorem rootsAll_singleton (tree : Tree) : rootsAll [tree] = roots tree := by
  rw [rootsAll, rootsAll, List.append_nil]

theorem rootsAll_append (xs ys : List Tree) : rootsAll (xs ++ ys) = rootsAll xs ++ rootsAll ys := by
  induction xs with
  | nil => rfl
  | cons x xs ih => rw [List.cons_append, rootsAll, ih, rootsAll, List.append_assoc]

mutual

theorem roots_check (table : TypingTable) :
    ∀ tree : Tree, (tree.check table).tree.roots = tree.roots
  | literal .. | reference .. | declaration .. | empty => rfl
  | unary operator old operand => by
    rw [check, roots, roots, roots_check table operand]
  | binary operator old left right => by
    rw [check, roots, roots, roots_check table left]
    split <;> simp only [roots_check table right]
  | assignment operator old target value => by
    rw [check, roots, roots, roots_check table target]
    split <;> simp only [roots_check table value]
  | block statements => by
    rw [check, roots, roots, rootsAll_checkAll table statements]

theorem rootsAll_checkAll (table : TypingTable) :
    ∀ trees : List Tree, rootsAll (checkAll table trees).trees = rootsAll trees
  | [] => rfl
  | tree :: rest => by
    rw [checkAll]
    split <;> simp only [rootsAll, roots_check table tree, rootsAll_checkAll table rest]

end

end Tree

/-! ## Tokens without a node -/

/-- The kinds of tokens that no node is rooted at. -/
def silentKinds : List Kind :=
  [.eof, .semicolon, .openParen, .closeParen, .openCurly, .closeCurly, .colon, .varDecl, .constDecl,
    .typeName]

/-- The tokens of all other kinds. -/
def voiced (tokens : List Token) : List Token := tokens.filter fun token => token.kind ∉ silentKinds

theorem voiced_append (xs ys : List Token) : voiced (xs ++ ys) = voiced xs ++ voiced ys :=
  List.filter_append ..

theorem voiced_cons {token : Token} (h : token.kind ∉ silentKinds) (tokens : List Token) :
    voiced (token :: tokens) = token :: voiced tokens :=
  List.filter_cons_of_pos (decide_eq_true h)

theorem voiced_cons_silent {token : Token} (h : token.kind ∈ silentKinds) (tokens : List Token) :
    voiced (token :: tokens) = voiced tokens :=
  List.filter_cons_of_neg (by simpa using h)

theorem voiced_concat_silent {token : Token} (h : token.kind ∈ silentKinds) (tokens : List Token) :
    voiced (tokens ++ [token]) = voiced tokens := by
  rw [voiced_append, voiced_cons_silent h]
  exact List.append_nil _

namespace Grammar

variable {g : Grammar}

/-! ## Phrases and passages -/

theorem roots_pair (operator : Token) (left right : Tree) :
    (pair operator left right).roots = left.roots ++ operator :: right.roots := by
  unfold pair
  split <;> rw [Tree.roots]

/-- The tokens of a phrase are those of its tree, behind those of what it extends. -/
def PhraseRoots (tokens : List Token) (tree : Tree) : Phrase → Prop
  | .operand | .signed | .binding .. => tree.roots = voiced tokens
  | .extension _ _ left => tree.roots = left.roots ++ voiced tokens

theorem Reads.roots (hg : g.StandardPositions) {scopes : Scopes} {phrase : Phrase} {room : Nat}
    {tokens : List Token} {next : Token} {tree : Tree}
    (h : Reads g scopes phrase room tokens next tree) : PhraseRoots tokens tree phrase := by
  induction h with
  | literal rule _ =>
    have hk := (by decide : ∀ k ∈ literalKinds, k ∉ silentKinds) _ (hg.mem_literalKinds rule)
    exact (voiced_cons hk []).symm
  | symbol rule _ => exact (voiced_cons (by rw [hg.eq_identifier rule]; decide) []).symm
  | group rule _ close ih =>
    rw [PhraseRoots, voiced_cons_silent (by rw [hg.eq_openParen rule]; decide),
      voiced_concat_silent (by rw [close]; decide)]
    exact ih
  | sign before _ ih =>
    have hk := (by decide : ∀ k ∈ signKinds, k ∉ silentKinds) _ (hg.mem_signKinds before)
    rw [PhraseRoots, Tree.roots, voiced_cons hk]
    exact congrArg _ ih
  | plain _ _ _ ih => exact ih
  | trailed _ _ after _ =>
    rw [hg.isAfter] at after
    cases after
  | binding _ _ ihf iho =>
    rw [PhraseRoots, voiced_append, ← show _ = _ from ihf]
    exact iho
  | ends | yields => exact (List.append_nil _).symm
  | extend infix_ _ _ _ _ _ ihr iho =>
    have hk := (by decide : ∀ k ∈ infixKinds, k ∉ silentKinds) _ (hg.mem_infixKinds infix_)
    -- the operator and its right operand have become part of what is extended further
    rw [PhraseRoots, voiced_cons hk, voiced_append, ← show _ = _ from ihr, show _ = _ from iho,
      roots_pair, List.append_assoc, List.cons_append]

theorem Clause.voiced_eq {tokens : List Token} {type : Option DataType}
    (h : Clause g tokens type) : voiced tokens = [] := by
  cases h with
  | absent => rfl
  | present mark named _ =>
    rw [voiced_cons_silent (by rw [mark]; decide), voiced_cons_silent (by rw [named]; decide)]
    rfl

theorem roots_of_check {tree checked : Tree} {fault : Option Diagnostic}
    (h : tree.check g.typing = ⟨checked, fault⟩) : checked.roots = tree.roots := by
  rw [← Tree.roots_check g.typing tree, h]

theorem voiced_declaration (hg : g.IsStandard) {keyword name : Token}
    (starts : keyword.kind ∈ g.declarators) (named : name.kind = .identifier) {clause : List Token}
    {type : Option DataType} (annotated : Clause g clause type) (tokens : List Token) :
    voiced (keyword :: name :: (clause ++ tokens)) = name :: voiced tokens := by
  have hk := (by decide : ∀ k ∈ declaratorKinds, k ∈ silentKinds) _ (hg.mem_declarators.mp starts)
  rw [voiced_cons_silent hk, voiced_cons (by rw [named]; decide), voiced_append,
    annotated.voiced_eq, List.nil_append]

theorem Forms.roots (hg : g.IsStandard) {passage : Passage} {room : Nat} {before behind : Scopes}
    {tokens : List Token} {trees : List Tree}
    (h : Forms g passage room before tokens trees behind) :
    Tree.rootsAll trees = voiced tokens := by
  induction h with
  | semicolon mark => exact (voiced_cons_silent (by rw [mark]; decide) []).symm
  | expression mark _ content typed =>
    rw [Tree.rootsAll_singleton, roots_of_check typed,
      voiced_concat_silent (by rw [mark]; decide)]
    exact content.roots hg.positions
  | bare starts named annotated _ mark =>
    rw [voiced_declaration hg starts named annotated, voiced_cons_silent (by rw [mark]; decide)]
    rfl
  | initialized starts named annotated _ equals content mark typed _ =>
    rw [voiced_declaration hg starts named annotated, voiced_cons (by rw [equals]; decide),
      voiced_concat_silent (by rw [mark]; decide), Tree.rootsAll_singleton, Tree.roots,
      roots_of_check typed, show _ = _ from content.roots hg.positions]
    rfl
  | block opens _ closes ih =>
    rw [voiced_cons_silent (by rw [opens]; decide), voiced_concat_silent (by rw [closes]; decide),
      ← ih]
    split_ifs with hempty
    · rw [List.isEmpty_iff.mp hempty]
    · exact Tree.rootsAll_singleton _
  | nil => rfl
  | cons _ _ _ ih ih' => rw [Tree.rootsAll_append, voiced_append, ih, ih']

/-! ## Programs -/

/-- **The nodes of an accepted program are rooted at its tokens, in their order**: at all that
`tokenize` gives but those of silent kinds. -/
theorem roots_of_parse {typing : TypingTable} {maxDepth : Nat} {source : Source}
    {units : List Tree} (h : (standard .standard typing maxDepth).parse source = .ok units) :
    ∃ tokens stream, TokenStream.tokenize .standard (.ofSource source) = .ok tokens stream ∧
      Tree.rootsAll units = voiced tokens := by
  have hg := isStandard_standard typing maxDepth
  obtain ⟨tokens, last, _, _, hk, ha, ht, hf⟩ := forms_of_parse h
  have hd : Derives .program tokens := hf.derives hg
  obtain ⟨stream, hs⟩ := tokenize_of_takes hk ha ht hd.ne_eof
  refine ⟨tokens ++ [last], stream, hs, ?_⟩
  rw [voiced_concat_silent (by rw [hk]; decide)]
  exact hf.roots hg

theorem roots_nested : ∃ units,
    (standard .standard .standard 16).parse
      (.ofString "const a : Float = -2.5;; \x7b var b = (a + 1) * a; \x7b\x7d b = b; \x7d") =
        .ok units ∧
      ∃ tokens stream, TokenStream.tokenize .standard (.ofSource (.ofString
        "const a : Float = -2.5;; \x7b var b = (a + 1) * a; \x7b\x7d b = b; \x7d")) =
          .ok tokens stream ∧ Tree.rootsAll units = voiced tokens := by
  obtain ⟨units, h⟩ := exists_of_isOk <| show ((standard .standard .standard 16).parse
    (.ofString "const a : Float = -2.5;; \x7b var b = (a + 1) * a; \x7b\x7d b = b; \x7d")).isOk =
      true by decide +kernel
  exact ⟨units, h, roots_of_parse h⟩

end Grammar

end ExprLang
