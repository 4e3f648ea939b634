import ExprLang.Proofs.Language.Sound
import ExprLang.Proofs.Printing.Print
import ExprLang.Proofs.Printing.WellFormed

/-!
# Well-formed programs are formed by their tokens

Tokens with the lexemes of a well-formed program are read as that program, if there is room for the
levels it takes.

* `Agrees`: scopes that a view describes, up to the sizes of types.
* `ReadsAs`: tokens are read as an expression, and checked as a given tree.
* **`readsAs_of_expressible`**, **`forms_of_wellFormed`**: expressions, and then programs.
-/

namespace ExprLang

/-! ## Scopes and views -/

namespace View

theorem inFrame_cons (symbol : Symbol) (frame : List Symbol) (id : String) :
    inFrame id (symbol :: frame) = if symbol.id = id then some symbol else inFrame id frame := by
  unfold inFrame
  rw [List.find?_cons]
  by_cases hid : symbol.id = id
  · rw [if_pos hid, beq_iff_eq.mpr hid]
  · rw [if_neg hid, beq_eq_false_iff_ne.mpr hid]

theorem nearest_declare (view : View) (symbol : Symbol) (id : String) :
    (view.declare [symbol]).nearest id =
      if symbol.id = id then some symbol else view.nearest id := by
  change ((symbol :: view.current) :: view.enclosing).findSome? (inFrame id) = _
  unfold nearest
  rw [List.findSome?_cons, List.findSome?_cons, inFrame_cons]
  split_ifs <;> rfl

end View

/-- What a view says of a name, the scopes say too, up to the size of its type. -/
structure Agrees (scopes : Scopes) (view : View) : Prop where
  visible : ∀ id symbol, view.nearest id = some symbol → ∃ found, scopes.lookup id = some found ∧
    found.assignable = symbol.assignable ∧
      symbol.type.map DataType.id = found.type.map DataType.id
  fresh : ∀ id, View.inFrame id view.current = none → scopes.lookupLocal id = none

theorem Scopes.lookupLocal_declare_of_ne {scopes behind : Scopes} {symbol : Symbol} {id : String}
    (hd : scopes.declare? symbol = some behind) (hne : symbol.id ≠ id) :
    behind.lookupLocal id = scopes.lookupLocal id := by
  unfold declare? at hd
  split_ifs at hd
  cases hd
  unfold lookupLocal
  rw [Table.get?_insert, if_neg hne]

theorem Scopes.lookupLocal_resolve_declare {scopes inner : Scopes} {symbol : Symbol}
    {type : DataType} (hd : scopes.declare? symbol = some inner) (ht : symbol.type = some type)
    (id : String) : (inner.resolve symbol.id type).lookupLocal id = inner.lookupLocal id := by
  unfold declare? at hd
  split_ifs at hd
  cases hd
  unfold lookupLocal resolve
  rw [Table.get?_modify]
  split_ifs with hid
  · rw [← hid, Table.get?_insert, if_pos rfl, Option.map_some, ← ht]
  · rfl

theorem Scopes.lookup_of_lookupLocal {s t : Scopes} {id : String}
    (hl : s.lookupLocal id = t.lookupLocal id) (he : s.enclosing = t.enclosing) :
    s.lookup id = t.lookup id := by
  unfold lookupLocal at hl
  rw [lookup_eq, lookup_eq, hl, he]

namespace Agrees

theorem root : Agrees .root .root := ⟨nofun, fun _ _ => rfl⟩

theorem push {scopes : Scopes} {view : View} (h : Agrees scopes view) :
    Agrees scopes.push view.push := ⟨h.visible, fun _ _ => rfl⟩

theorem declare {scopes behind : Scopes} {view : View} {symbol found : Symbol}
    (h : Agrees scopes view) (hd : scopes.declare? found = some behind)
    (hid : symbol.id = found.id) (hm : found.assignable = symbol.assignable)
    (ht : symbol.type.map DataType.id = found.type.map DataType.id) :
    Agrees behind (view.declare [symbol]) := by
  constructor
  · intro id other hn
    rw [View.nearest_declare] at hn
    rw [Scopes.lookup_declare hd, ← hid]
    split_ifs at hn ⊢
    · cases hn
      exact ⟨found, rfl, hm, ht⟩
    · exact h.visible id other hn
  · intro id hn
    change View.inFrame id (symbol :: view.current) = none at hn
    rw [View.inFrame_cons] at hn
    split_ifs at hn with hne
    rw [Scopes.lookupLocal_declare_of_ne hd (hid ▸ hne)]
    exact h.fresh id hn

theorem resolve {scopes inner : Scopes} {view : View} {symbol found : Symbol} {type : DataType}
    (h : Agrees scopes view) (hd : scopes.declare? found = some inner)
    (hid : symbol.id = found.id) (hm : found.assignable = symbol.assignable)
    (ht : symbol.type.map DataType.id = found.type.map DataType.id)
    (htype : found.type = some type) :
    Agrees (inner.resolve found.id type) (view.declare [symbol]) := by
  have hdeclared := h.declare hd hid hm ht
  have hsame := Scopes.lookupLocal_resolve_declare hd htype
  constructor
  · intro id other hn
    rw [Scopes.lookup_of_lookupLocal (hsame id) rfl]
    exact hdeclared.visible id other hn
  · intro id hn
    rw [hsame]
    exact hdeclared.fresh id hn

end Agrees

/-! ## Checks that succeed -/

namespace Tree

variable {table : TypingTable} {operator : Token} {old : Option DataType} {x y result : DataType}

theorem check_unary {operand checked : Tree} (hc : operand.check table = ⟨checked, none⟩)
    (hx : checked.type? = some x) (he : table.unary? operator.kind x = some result) :
    (unary operator old operand).check table =
      ⟨unary operator (some result) checked, none⟩ := by
  have ht : unaryType table operator checked = .ok result := by
    simp [unaryType, operandType, hx, bind, Except.bind, he]
  rw [check, hc]
  simp only [ht]
  rfl

theorem pairType_eq_ok_of {l r : Tree} (hl : l.type? = some x) (hr : r.type? = some y)
    (he : table.binary? operator.kind x y = some result) :
    pairType table operator ⟨l, none⟩ ⟨r, none⟩ = .ok result := by
  simp [pairType, binaryType, operandType, hl, hr, bind, Except.bind, he]

theorem check_binary {left right l r : Tree} (hl : left.check table = ⟨l, none⟩)
    (hr : right.check table = ⟨r, none⟩) (hx : l.type? = some x) (hy : r.type? = some y)
    (he : table.binary? operator.kind x y = some result) :
    (binary operator old left right).check table =
      ⟨binary operator (some result) l r, none⟩ := by
  have ht := pairType_eq_ok_of hx hy he
  rw [check, hl]
  simp only [Option.isSome_none, Bool.false_eq_true, if_false, hr, ht]
  rfl

theorem check_assignment {target value l r : Tree} (hl : target.check table = ⟨l, none⟩)
    (hr : value.check table = ⟨r, none⟩) (hx : l.type? = some x) (hy : r.type? = some y)
    (he : table.binary? operator.kind x y = some result) :
    (assignment operator old target value).check table =
      ⟨assignment operator (some result) l r, none⟩ := by
  have ht := pairType_eq_ok_of hx hy he
  rw [check, hl]
  simp only [Option.isSome_none, Bool.false_eq_true, if_false, hr, ht]
  rfl

end Tree

theorem exists_type?_of_same {a b : Tree} {x : DataType} (h : a.same b = true)
    (hx : a.type? = some x) : ∃ y, b.type? = some y ∧ x.id = y.id := by
  have ht := Tree.type?_of_same h
  rw [hx, Option.map_some] at ht
  obtain ⟨y, hy, hid⟩ := Option.map_eq_some_iff.mp ht.symm
  exact ⟨y, hy, hid.symm⟩

theorem Tree.ne_nil_of_sameAll {xs ys : List Tree} (h : sameAll xs ys = true) (hx : xs ≠ []) :
    ys ≠ [] := by
  rintro rfl
  cases xs with
  | nil => exact hx rfl
  | cons => cases h

/-! ## Lexemes and tokens -/

theorem exists_bracketed {tokens : List Token} {xs : List (Kind × String)}
    (h : tokens.map Token.lexeme = Tree.bracketed xs) :
    ∃ opening inner closing, tokens = opening :: (inner ++ [closing]) ∧
      opening.kind = .openParen ∧ closing.kind = .closeParen ∧ inner.map Token.lexeme = xs := by
  obtain ⟨opening, others, rfl, ho, h⟩ := List.map_eq_cons_iff.mp h
  obtain ⟨inner, ending, rfl, hi, h⟩ := List.map_eq_append_iff.mp h
  obtain ⟨closing, rfl, hc⟩ := List.map_eq_singleton_iff.mp h
  exact ⟨opening, inner, closing, rfl, congrArg Prod.fst ho, congrArg Prod.fst hc, hi⟩

theorem Token.same_of_lexeme {a b : Token} (h : b.lexeme = a.lexeme) : a.same b = true :=
  Token.same_iff.mpr ⟨(congrArg Prod.fst h).symm, (congrArg Prod.snd h).symm⟩

namespace Grammar

variable {g : Grammar} {scopes : Scopes}

/-! ## Expressions in brackets -/

theorem reads_plain (hg : g.IsStandard) {room : Nat} {tokens : List Token} {next : Token}
    {tree : Tree} (h : Reads g scopes .operand room tokens next tree) :
    Reads g scopes .signed room tokens next tree := by
  have hbefore := hg.positions.isBefore_of_primary (h.derives hg.positions) [] next
  rw [List.append_nil] at hbefore
  exact .plain hbefore h (hg.positions.isAfter next.kind)

/-- Whatever stands up to the end of an expression is all of it. -/
theorem reads_alone {previous : Option Token} {inParen : Bool} {room : Nat}
    {tokens : List Token} {next : Token} {tree : Tree}
    (h : Reads g scopes .signed room tokens next tree) (hn : Terminates inParen next) :
    Reads g scopes (.binding previous inParen) (room + 1) tokens next tree := by
  have hends : g.Ends inParen next := ⟨"", afterOperand_of_terminates g hn ""⟩
  have hr : Reads g scopes (.binding previous inParen) (room + 1) (tokens ++ []) next tree :=
    .binding h (.ends hends)
  rwa [List.append_nil] at hr

theorem reads_bracketed (hg : g.IsStandard) {room : Nat} {opening closing next : Token}
    {inner : List Token} {tree : Tree} (ho : opening.kind = .openParen)
    (hc : closing.kind = .closeParen)
    (h : Reads g scopes (.binding none true) room inner closing tree) :
    Reads g scopes .operand (room + 1) (opening :: (inner ++ [closing])) next tree := by
  refine .group ?_ h hc
  rw [hg.positions.rule_eq, ho]
  rfl

theorem reads_joined (hg : g.IsStandard) {room : Nat} {operator closing : Token}
    {xs ys : List Token} {left right : Tree} (ho : operator.kind ∈ infixKinds)
    (hl : ∀ next, Reads g scopes .operand (room + 1) xs next left)
    (hr : ∀ next, Reads g scopes .operand room ys next right)
    (target : FitsTarget scopes operator left) (low : 1 + max left.height right.height ≤ g.maxDepth)
    (hc : closing.kind = .closeParen) :
    Reads g scopes (.binding none true) (room + 2) (xs ++ operator :: ys) closing
      (pair operator left right) := by
  have hstop : Terminates true closing := hc
  have hends : g.Ends true closing := ⟨"", afterOperand_of_terminates g hstop ""⟩
  have hcontinues : g.Continues true operator := ⟨"", hg.positions.afterOperand_of_infix ho ""⟩
  have hothers : Reads g scopes (.extension none true left) (room + 1) (operator :: (ys ++ []))
      closing (pair operator left right) :=
    .extend hcontinues target rfl (reads_alone (reads_plain hg (hr closing)) hstop) low
      (.ends hends)
  rw [List.append_nil] at hothers
  exact .binding (reads_plain hg (hl _)) hothers

theorem exists_joined {tokens : List Token} {operator : Token} {xs ys : List (Kind × String)}
    (h : tokens.map Token.lexeme = Tree.bracketed (xs ++ operator.lexeme :: ys)) :
    ∃ opening left mark right closing, tokens = opening :: ((left ++ mark :: right) ++ [closing]) ∧
      opening.kind = .openParen ∧ closing.kind = .closeParen ∧ left.map Token.lexeme = xs ∧
        mark.lexeme = operator.lexeme ∧ right.map Token.lexeme = ys := by
  obtain ⟨opening, inner, closing, rfl, ho, hc, hi⟩ := exists_bracketed h
  obtain ⟨left, others, rfl, hl, hi⟩ := List.map_eq_append_iff.mp hi
  obtain ⟨mark, right, rfl, hm, hr⟩ := List.map_eq_cons_iff.mp hi
  exact ⟨opening, left, mark, right, closing, rfl, ho, hc, hl, hm, hr⟩

/-- The tokens are read as an expression that the check makes the same as `tree`. -/
def ReadsAs (g : Grammar) (scopes : Scopes) (room : Nat) (tokens : List Token) (tree : Tree) :
    Prop :=
  ∃ raw checked, (∀ next, Reads g scopes .operand room tokens next raw) ∧
    raw.check g.typing = ⟨checked, none⟩ ∧ tree.same checked = true ∧ raw.rank = tree.rank

theorem rank_lt_levels {v : Vocabulary} {table : TypingTable} {view : View} {tree : Tree}
    (h : Expressible v table view tree) : tree.rank < tree.levels := by
  induction h with
  | literal | reference => exact Nat.lt_succ_self 1
  | unary =>
    rw [Tree.rank, Tree.levels]
    omega
  | binary | assignment =>
    rw [Tree.rank, Tree.levels]
    omega

theorem reads_name (hg : g.IsStandard) {v : Vocabulary} {table : TypingTable} {view : View}
    (ha : Agrees scopes view) {token : Token} {type : Option DataType} {assignable : Bool}
    (h : Expressible v table view (.reference token type assignable)) {room : Nat}
    {tokens : List Token}
    (ht : tokens.map Token.lexeme = (Tree.reference token type assignable).lexemes) :
    ∃ name symbol, scopes.lookup name.value = some symbol ∧ symbol.assignable = assignable ∧
      token.same name = true ∧ type.map DataType.id = symbol.type.map DataType.id ∧
      ∀ next, Reads g scopes .operand (room + 2) tokens next
        (.reference name symbol.type symbol.assignable) := by
  obtain ⟨opening, inner, closing, rfl, ho, hc, hi⟩ := exists_bracketed ht
  obtain ⟨name, rfl, hname⟩ := List.map_eq_singleton_iff.mp hi
  cases h with
  | reference named _ visible typed mutability =>
    have hvalue : name.value = token.value := congrArg Prod.snd hname
    have hkind : name.kind = token.kind := congrArg Prod.fst hname
    obtain ⟨symbol, hl, hm, hs⟩ := ha.visible _ _ visible
    rw [← hvalue] at hl
    refine ⟨name, symbol, hl, hm.trans mutability, Token.same_of_lexeme hname, ?_, fun next => ?_⟩
    · exact (DataType.sameOption_iff.mp typed).trans hs
    · refine reads_bracketed hg ho hc (reads_alone (reads_plain hg (.symbol ?_ hl)) hc)
      rw [hg.positions.rule_eq, hkind, named]
      rfl

section

variable {type : Option DataType} {operator token : Token} {x y result : DataType} {room : Nat}
  {tokens : List Token}

theorem readsAs_literal (hg : g.IsStandard) {type found : DataType}
    (known : g.vocabulary.literalType? token.kind = some found) (typed : type.same found = true)
    (ht : tokens.map Token.lexeme = (Tree.literal token type).lexemes) :
    ReadsAs g scopes (room + 2) tokens (.literal token type) := by
  obtain ⟨opening, inner, closing, rfl, ho, hc, hi⟩ := exists_bracketed ht
  obtain ⟨other, rfl, hother⟩ := List.map_eq_singleton_iff.mp hi
  have hkind : other.kind = token.kind := congrArg Prod.fst hother
  rw [← hkind] at known
  refine ⟨.literal other found, .literal other found, fun next => ?_, rfl, ?_, rfl⟩
  · refine reads_bracketed hg ho hc (reads_alone (reads_plain hg (.literal ?_ known)) hc)
    have hsome := Vocabulary.literalType?_standard other.kind
    rw [← hg.vocabulary, known, Option.isSome_some] at hsome
    rw [hg.positions.rule_eq, if_pos (of_decide_eq_true hsome.symm)]
  · exact Bool.and_eq_true_iff.mpr ⟨Token.same_of_lexeme hother, typed⟩

theorem readsAs_reference (hg : g.IsStandard) {view : View} (ha : Agrees scopes view)
    {assignable : Bool}
    (h : Expressible g.vocabulary g.typing view (.reference token type assignable))
    (ht : tokens.map Token.lexeme = (Tree.reference token type assignable).lexemes) :
    ReadsAs g scopes (room + 2) tokens (.reference token type assignable) := by
  obtain ⟨name, symbol, -, rfl, hsame, hs, hreads⟩ := reads_name hg ha h ht
  refine ⟨_, _, hreads, rfl, ?_, rfl⟩
  simp [Tree.same, hsame, DataType.sameOption_iff, hs]

theorem readsAs_unary (hg : g.IsStandard) {operand : Tree} (sign : operator.kind ∈ signKinds)
    (known : operand.type? = some x) (entry : g.typing.unary? operator.kind x = some result)
    (typed : DataType.sameOption type (some result) = true)
    (ht : tokens.map Token.lexeme = (Tree.unary operator type operand).lexemes)
    (h : ∀ inner, inner.map Token.lexeme = operand.lexemes → ReadsAs g scopes room inner operand) :
    ReadsAs g scopes (room + 3) tokens (.unary operator type operand) := by
  obtain ⟨opening, tokens, closing, rfl, ho, hc, hi⟩ := exists_bracketed ht
  obtain ⟨mark, others, rfl, hmark, hothers⟩ := List.map_eq_cons_iff.mp hi
  have hkind : mark.kind = operator.kind := congrArg Prod.fst hmark
  obtain ⟨raw, checked, hreads, hcheck, hsame, hrank⟩ := h others hothers
  obtain ⟨y, hy, hid⟩ := exists_type?_of_same hsame known
  rw [TypingTable.unary?_congr hid, ← hkind] at entry
  refine ⟨.unary mark none raw, _, fun next => ?_, Tree.check_unary hcheck hy entry, ?_, ?_⟩
  · refine reads_bracketed hg ho hc (reads_alone (.sign ?_ (reads_plain hg (hreads _))) hc)
    rw [hg.positions.isBefore, hkind, decide_eq_true sign]
  · simp [Tree.same, Token.same_of_lexeme hmark, typed, hsame]
  · rw [Tree.rank, Tree.rank, hrank]

theorem readsAs_binary (hg : g.IsStandard) {left right : Tree}
    (joins : operator.kind ∈ infixKinds) (evaluates : operator.kind ≠ .assignment)
    (known : left.type? = some x ∧ right.type? = some y)
    (entry : g.typing.binary? operator.kind x y = some result)
    (typed : DataType.sameOption type (some result) = true)
    (low : 1 + max left.rank right.rank ≤ g.maxDepth)
    (ht : tokens.map Token.lexeme = (Tree.binary operator type left right).lexemes)
    (hleft : ∀ inner, inner.map Token.lexeme = left.lexemes →
      ReadsAs g scopes (room + 1) inner left)
    (hright : ∀ inner, inner.map Token.lexeme = right.lexemes →
      ReadsAs g scopes room inner right) :
    ReadsAs g scopes (room + 3) tokens (.binary operator type left right) := by
  obtain ⟨opening, ls, mark, rs, closing, rfl, ho, hc, hls, hmark, hrs⟩ := exists_joined ht
  have hkind : mark.kind = operator.kind := congrArg Prod.fst hmark
  obtain ⟨l, l', hl, hlcheck, hlsame, hlrank⟩ := hleft ls hls
  obtain ⟨r, r', hr, hrcheck, hrsame, hrrank⟩ := hright rs hrs
  obtain ⟨x', hx, hxid⟩ := exists_type?_of_same hlsame known.1
  obtain ⟨y', hy, hyid⟩ := exists_type?_of_same hrsame known.2
  rw [TypingTable.binary?_congr hxid hyid, ← hkind] at entry
  rw [← hkind] at joins evaluates
  have hpair : pair mark l r = .binary mark none l r := if_neg evaluates
  refine ⟨.binary mark none l r, _, fun next => ?_,
    Tree.check_binary hlcheck hrcheck hx hy entry, ?_, ?_⟩
  · refine reads_bracketed hg ho hc (hpair ▸ reads_joined hg joins hl hr ?_ ?_ hc)
    · exact fun h => absurd h evaluates
    · rwa [Tree.height_eq_rank, Tree.height_eq_rank, hlrank, hrrank]
  · simp [Tree.same, Token.same_of_lexeme hmark, typed, hlsame, hrsame]
  · rw [Tree.rank, Tree.rank, hlrank, hrrank]

theorem readsAs_assignment (hg : g.IsStandard) {view : View} (ha : Agrees scopes view)
    {old : Option DataType} {value : Tree} (assigns : operator.kind = .assignment)
    (target : Expressible g.vocabulary g.typing view (.reference token old true))
    (known : old = some x ∧ value.type? = some y)
    (entry : g.typing.binary? operator.kind x y = some result)
    (typed : DataType.sameOption type (some result) = true)
    (low : 1 + max 1 value.rank ≤ g.maxDepth)
    (ht : tokens.map Token.lexeme =
      (Tree.assignment operator type (.reference token old true) value).lexemes)
    (hvalue : ∀ inner, inner.map Token.lexeme = value.lexemes →
      ReadsAs g scopes (room + 1) inner value) :
    ReadsAs g scopes (room + 4) tokens
      (.assignment operator type (.reference token old true) value) := by
  obtain ⟨opening, ls, mark, rs, closing, rfl, ho, hc, hls, hmark, hrs⟩ := exists_joined ht
  have hkind : mark.kind = operator.kind := congrArg Prod.fst hmark
  obtain ⟨r, r', hr, hrcheck, hrsame, hrrank⟩ := hvalue rs hrs
  obtain ⟨name, symbol, hlookup, hm, hname, hs, hl⟩ := reads_name hg ha target hls
  rw [known.1, Option.map_some] at hs
  obtain ⟨x', hx, hxid⟩ := Option.map_eq_some_iff.mp hs.symm
  obtain ⟨y', hy, hyid⟩ := exists_type?_of_same hrsame known.2
  rw [TypingTable.binary?_congr hxid.symm hyid, ← hkind] at entry
  rw [← hkind] at assigns
  have hpair : pair mark (.reference name symbol.type symbol.assignable) r =
      .assignment mark none (.reference name symbol.type symbol.assignable) r := if_pos assigns
  refine ⟨.assignment mark none (.reference name symbol.type symbol.assignable) r, _,
    fun next => ?_, Tree.check_assignment rfl hrcheck hx hy entry, ?_, ?_⟩
  · refine reads_bracketed hg ho hc (hpair ▸ reads_joined hg ?_ hl hr ?_ ?_ hc)
    · rw [assigns]
      decide
    · exact fun _ => ⟨name, _, _, symbol, rfl, hlookup, hm⟩
    · rwa [Tree.height_eq_rank, Tree.height_eq_rank, hrrank, Tree.rank]
  · simp [Tree.same, Token.same_of_lexeme hmark, typed, hname, hm, hrsame, hx, known.1,
      DataType.sameOption_iff, hxid]
  · rw [Tree.rank, Tree.rank, Tree.rank, Tree.rank, hrrank]

end

/-- **An expression is read from its lexemes**, if there is room for the levels it takes. -/
theorem readsAs_of_expressible (hg : g.IsStandard) {view : View} (ha : Agrees scopes view)
    {tree : Tree} (h : Expressible g.vocabulary g.typing view tree) {room : Nat}
    (hroom : tree.levels ≤ room) (hmax : room ≤ g.maxDepth) {tokens : List Token}
    (ht : tokens.map Token.lexeme = tree.lexemes) : ReadsAs g scopes room tokens tree := by
  induction h generalizing room tokens with
  | literal _ known typed =>
    obtain ⟨room, rfl⟩ := Nat.exists_eq_add_of_le' hroom
    exact readsAs_literal hg known typed ht
  | reference named producible visible typed mutability =>
    obtain ⟨room, rfl⟩ := Nat.exists_eq_add_of_le' hroom
    exact readsAs_reference hg ha (.reference named producible visible typed mutability) ht
  | unary sign _ _ known entry typed ih =>
    rw [Tree.levels] at hroom
    obtain ⟨room, rfl⟩ := Nat.exists_eq_add_of_le' (Nat.le_of_add_left_le hroom)
    exact readsAs_unary hg sign known entry typed ht fun _ hi => ih (by omega) (by omega) hi
  | binary joins evaluates _ first second known entry typed ihl ihr =>
    rw [Tree.levels] at hroom
    have hl := rank_lt_levels first
    have hr := rank_lt_levels second
    obtain ⟨room, rfl⟩ := Nat.exists_eq_add_of_le' (show 3 ≤ room by omega)
    -- the right operand is read one level further down than the left one
    refine readsAs_binary hg joins evaluates known entry typed (by omega) ht ?_ ?_
    · exact fun _ hi => ihl (by omega) (by omega) hi
    · exact fun _ hi => ihr (by omega) (by omega) hi
  | assignment assigns _ target source known entry typed _ ih =>
    rw [Tree.levels, Tree.levels] at hroom
    have hr := rank_lt_levels source
    obtain ⟨room, rfl⟩ := Nat.exists_eq_add_of_le' (show 4 ≤ room by omega)
    refine readsAs_assignment hg ha assigns target known entry typed (by omega) ht ?_
    exact fun _ hi => ih (by omega) (by omega) hi

/-! ## Statements and blocks -/

/-- The tokens of a declaration without its initializer and without its semicolon. -/
theorem exists_heading {tokens : List Token} {name : Token} {type : Option DataType}
    {assignable : Bool}
    (h : tokens.map Token.lexeme = Tree.headingLexemes name type assignable) :
    ∃ keyword other colon typing, tokens = [keyword, other, colon, typing] ∧
      keyword.kind ∈ declaratorKinds ∧ (keyword.kind == .varDecl) = assignable ∧
        other.lexeme = name.lexeme ∧ colon.kind = .colon ∧
          typing.lexeme = (.typeName, Tree.typeName type) := by
  obtain ⟨keyword, tokens, rfl, hk, h⟩ := List.map_eq_cons_iff.mp h
  obtain ⟨other, tokens, rfl, hn, h⟩ := List.map_eq_cons_iff.mp h
  obtain ⟨colon, tokens, rfl, hc, h⟩ := List.map_eq_cons_iff.mp h
  obtain ⟨typing, rfl, ht⟩ := List.map_eq_singleton_iff.mp h
  have hkind : keyword.kind = if assignable then .varDecl else .constDecl := congrArg Prod.fst hk
  refine ⟨keyword, other, colon, typing, rfl, ?_, ?_, hn, congrArg Prod.fst hc, ht⟩
  · rw [hkind]
    cases assignable <;> decide
  · rw [hkind]
    cases assignable <;> rfl

theorem exists_declared {view : View} (ha : Agrees scopes view)
    {name other colon typing : Token} {type : Option DataType} {assignable : Bool}
    (h : Declares g.vocabulary view name type) (ho : other.lexeme = name.lexeme)
    (hc : colon.kind = .colon) (ht : typing.lexeme = (.typeName, Tree.typeName type)) :
    ∃ found inner, type.map DataType.id = some found.id ∧ other.kind = .identifier ∧
      Clause g [colon, typing] (some found) ∧
        scopes.declare? ⟨other.value, assignable, some found⟩ = some inner := by
  obtain ⟨found, hknown, hs⟩ := h.known
  have htype : type.map DataType.id = some found.id := DataType.sameOption_iff.mp hs
  have hkind : typing.kind = .typeName := congrArg Prod.fst ht
  have hvalue : typing.value = found.id := by
    obtain ⟨t, rfl, hid⟩ := Option.map_eq_some_iff.mp htype
    exact (congrArg Prod.snd ht).trans hid
  have hother : other.value = name.value := congrArg Prod.snd ho
  have hfresh : scopes.declare? ⟨other.value, assignable, some found⟩ ≠ none := by
    rw [Ne, Scopes.declare?_eq_none_iff, hother, ha.fresh _ h.fresh]
    decide
  obtain ⟨inner, hinner⟩ := Option.ne_none_iff_exists'.mp hfresh
  refine ⟨found, inner, htype, (congrArg Prod.fst ho).trans h.named, ?_, hinner⟩
  exact .present hc hkind (hvalue ▸ hknown)

/-- The lexemes and the levels of a statement that is an expression. -/
theorem unit_eq_of_expressible {v : Vocabulary} {table : TypingTable} {view : View} {tree : Tree}
    (h : Expressible v table view tree) :
    tree.unitLexemes = tree.lexemes ++ [(.semicolon, ";")] ∧
      tree.unitLevels = tree.levels + 1 := by
  cases h <;> exact ⟨rfl, rfl⟩

theorem lexeme_of_assigns (hg : g.IsStandard) {operator : Token}
    (assigns : operator.kind = .assignment) (registered : Registered g.vocabulary operator) :
    operator.lexeme = (.assignment, "=") := by
  unfold Registered at registered
  rw [hg.vocabulary, assigns] at registered
  unfold Token.lexeme
  rw [assigns, Vocabulary.eq_of_operatorKind?_assignment registered]

theorem exists_semicolon {tokens : List Token} {xs : List (Kind × String)}
    (h : tokens.map Token.lexeme = xs ++ [(.semicolon, ";")]) :
    ∃ content mark, tokens = content ++ [mark] ∧ content.map Token.lexeme = xs ∧
      mark.kind = .semicolon := by
  obtain ⟨content, ending, rfl, hx, h⟩ := List.map_eq_append_iff.mp h
  obtain ⟨mark, rfl, hm⟩ := List.map_eq_singleton_iff.mp h
  exact ⟨content, mark, rfl, hx, congrArg Prod.fst hm⟩

/-- No expression starts like a declaration. -/
theorem undeclared_of_reads (hg : g.IsStandard) {room : Nat} {tokens : List Token} {next : Token}
    {tree : Tree} (h : Reads g scopes (.binding none false) room tokens next tree) :
    (firstOf tokens next).kind ∉ g.declarators := by
  obtain ⟨first, others, rfl, hk⟩ := Derives.head (h.derives hg.positions) (.inr (.inr rfl))
  rw [hg.mem_declarators]
  exact (by decide : ∀ k ∈ headKinds, k ∉ declaratorKinds) _ hk

theorem forms_expression (hg : g.IsStandard) {view : View} (ha : Agrees scopes view)
    {tree : Tree} (h : Expressible g.vocabulary g.typing view tree) {room : Nat}
    (hroom : tree.unitLevels ≤ room) (hmax : room ≤ g.maxDepth) {tokens : List Token}
    (ht : tokens.map Token.lexeme = tree.unitLexemes) :
    ∃ found, Forms g .statement room scopes tokens [found] scopes ∧ tree.same found = true := by
  rw [(unit_eq_of_expressible h).1] at ht
  rw [(unit_eq_of_expressible h).2] at hroom
  obtain ⟨room, rfl⟩ := Nat.exists_eq_add_of_le' (Nat.le_of_add_left_le hroom)
  obtain ⟨content, mark, rfl, hcontent, hmark⟩ := exists_semicolon ht
  obtain ⟨raw, checked, hreads, hcheck, hsame, -⟩ :=
    readsAs_of_expressible hg ha h (show tree.levels ≤ room by omega) (by omega) hcontent
  have hbinding : Reads g scopes (.binding none false) (room + 1) content mark raw :=
    reads_alone (reads_plain hg (hreads mark)) hmark
  exact ⟨checked, .expression hmark (undeclared_of_reads hg hbinding) hbinding hcheck, hsame⟩

theorem forms_bare (hg : g.IsStandard) {view : View} (ha : Agrees scopes view) {name : Token}
    {type : Option DataType} {assignable : Bool} (h : Declares g.vocabulary view name type)
    {room : Nat} {tokens : List Token}
    (ht : tokens.map Token.lexeme = (Tree.declaration name type assignable).unitLexemes) :
    ∃ found behind, Forms g .statement room scopes tokens [found] behind ∧
      (Tree.declaration name type assignable).same found = true ∧
        Agrees behind (view.declare [⟨name.value, assignable, type⟩]) := by
  obtain ⟨content, mark, rfl, hcontent, hmark⟩ := exists_semicolon ht
  obtain ⟨keyword, other, colon, typing, rfl, hk, rfl, ho, hc, hty⟩ := exists_heading hcontent
  obtain ⟨found, behind, htype, hid, hclause, hdeclare⟩ := exists_declared ha h ho hc hty
  refine ⟨_, behind, .bare (hg.mem_declarators.mpr hk) hid hclause hdeclare hmark, ?_, ?_⟩
  · simp [Tree.same, Token.same_of_lexeme ho, DataType.sameOption_iff, htype]
  · exact ha.declare hdeclare (congrArg Prod.snd ho).symm rfl htype

theorem forms_initialized (hg : g.IsStandard) {view : View} (ha : Agrees scopes view)
    {operator name : Token} {result type : Option DataType} {assignable : Bool} {value : Tree}
    (h : Declares g.vocabulary view name type) (assigns : operator.lexeme = (.assignment, "="))
    (source : Expressible g.vocabulary g.typing
      (view.declare [⟨name.value, assignable, type⟩]) value)
    (typed : DataType.sameOption type value.type? = true ∧
      DataType.sameOption result type = true)
    {room : Nat} (hroom : value.levels + 1 ≤ room) (hmax : room ≤ g.maxDepth)
    {tokens : List Token}
    (ht : tokens.map Token.lexeme =
      (Tree.assignment operator result (.declaration name type assignable) value).unitLexemes) :
    ∃ found behind, Forms g .statement room scopes tokens [found] behind ∧
      (Tree.assignment operator result (.declaration name type assignable) value).same found =
        true ∧ Agrees behind (view.declare [⟨name.value, assignable, type⟩]) := by
  obtain ⟨heading, initializer, rfl, hheading, hinitializer⟩ := List.map_eq_append_iff.mp ht
  obtain ⟨keyword, other, colon, typing, rfl, hk, rfl, ho, hc, hty⟩ := exists_heading hheading
  obtain ⟨equals, others, rfl, he, hothers⟩ := List.map_eq_cons_iff.mp hinitializer
  obtain ⟨content, mark, rfl, hcontent, hmark⟩ := exists_semicolon hothers
  obtain ⟨found, inner, htype, hid, hclause, hdeclare⟩ := exists_declared ha h ho hc hty
  obtain ⟨room, rfl⟩ := Nat.exists_eq_add_of_le' (Nat.le_of_add_left_le hroom)
  have hvalue : name.value = other.value := (congrArg Prod.snd ho).symm
  have hinner : Agrees inner (view.declare [⟨name.value, keyword.kind == .varDecl, type⟩]) :=
    ha.declare hdeclare hvalue rfl htype
  obtain ⟨raw, checked, hreads, hcheck, hsame, -⟩ := readsAs_of_expressible hg hinner source
    (show value.levels ≤ room by omega) (by omega) hcontent
  have hbinding : Reads g inner (.binding none false) (room + 1) content mark raw :=
    reads_alone (reads_plain hg (hreads mark)) hmark
  obtain ⟨received, hreceived, hunify⟩ : ∃ received, checked.type? = some received ∧
      found.id = received.id := by
    have := Tree.type?_of_same hsame
    rw [← DataType.sameOption_iff.mp typed.1, htype] at this
    obtain ⟨received, hr, hreceived⟩ := Option.map_eq_some_iff.mp this.symm
    exact ⟨received, hr, hreceived.symm⟩
  have hunified : unify (some found) checked.type? equals.line = .ok found := by
    rw [hreceived]
    exact if_pos (DataType.same_iff.mpr hunify)
  refine ⟨_, _, .initialized (hg.mem_declarators.mpr hk) hid hclause hdeclare
    (congrArg Prod.fst he) hbinding hmark hcheck hunified, ?_, ?_⟩
  · have hoperator : operator.same equals = true := Token.same_of_lexeme (he.trans assigns.symm)
    simp [Tree.same, Token.same_of_lexeme ho, hoperator, DataType.sameOption_iff, htype, hsame,
      DataType.sameOption_iff.mp typed.2]
  · exact ha.resolve hdeclare hvalue rfl htype rfl

/-- **A well-formed program is formed by its lexemes**, if there is room for the levels it takes. -/
theorem forms_of_wellFormed (hg : g.IsStandard) {view : View} {trees : List Tree}
    (h : WellFormed g.vocabulary g.typing view trees) {scopes : Scopes} (ha : Agrees scopes view)
    {room : Nat} (hroom : Tree.unitsLevels trees ≤ room) (hmax : room ≤ g.maxDepth)
    {tokens : List Token} (ht : tokens.map Token.lexeme = Tree.unitsLexemes trees) :
    ∃ found behind, Forms g .several room scopes tokens found behind ∧
      Tree.sameAll trees found = true := by
  induction h generalizing scopes room tokens with
  | nil =>
    obtain rfl := List.map_eq_nil_iff.mp ht
    exact ⟨[], scopes, .nil, rfl⟩
  | expression first _ ih =>
    rw [Tree.unitsLevels] at hroom
    obtain ⟨xs, ys, rfl, hx, hy⟩ := List.map_eq_append_iff.mp ht
    obtain ⟨found, hf, hsame⟩ := forms_expression hg ha first (by omega) hmax hx
    obtain ⟨others, behind, hrest, hall⟩ := ih ha (by omega) hmax hy
    exact ⟨_, behind, .cons (by decide) hf hrest, by simp [Tree.sameAll, hsame, hall]⟩
  | bare declares _ ih =>
    rw [Tree.unitsLevels] at hroom
    obtain ⟨xs, ys, rfl, hx, hy⟩ := List.map_eq_append_iff.mp ht
    obtain ⟨found, mid, hf, hsame, hmid⟩ := forms_bare hg ha declares hx
    obtain ⟨others, behind, hrest, hall⟩ := ih hmid (by omega) hmax hy
    exact ⟨_, behind, .cons (by decide) hf hrest, by simp [Tree.sameAll, hsame, hall]⟩
  | initialized declares assigns registered source typed _ ih =>
    rw [Tree.unitsLevels, Tree.unitLevels] at hroom
    obtain ⟨xs, ys, rfl, hx, hy⟩ := List.map_eq_append_iff.mp ht
    obtain ⟨found, mid, hf, hsame, hmid⟩ := forms_initialized hg ha declares
      (lexeme_of_assigns hg assigns registered) source typed
      (by omega) hmax hx
    obtain ⟨others, behind, hrest, hall⟩ := ih hmid (by omega) hmax hy
    exact ⟨_, behind, .cons (by decide) hf hrest, by simp [Tree.sameAll, hsame, hall]⟩
  | block filled _ _ ih ih' =>
    rw [Tree.unitsLevels, Tree.unitLevels] at hroom
    obtain ⟨room, rfl⟩ := Nat.exists_eq_add_of_le' (show 2 ≤ room by omega)
    obtain ⟨xs, ys, rfl, hx, hy⟩ := List.map_eq_append_iff.mp ht
    obtain ⟨opening, others, rfl, ho, hx⟩ := List.map_eq_cons_iff.mp hx
    obtain ⟨inner, ending, rfl, hi, hx⟩ := List.map_eq_append_iff.mp hx
    obtain ⟨closing, rfl, hc⟩ := List.map_eq_singleton_iff.mp hx
    obtain ⟨statements, mid, hf, hsame⟩ := 
      ih ha.push (show _ ≤ room + 1 by omega) (by omega) hi
    obtain ⟨others, behind, hrest, hall⟩ := ih' ha (by omega) hmax hy
    have hne : statements.isEmpty = false :=
      List.isEmpty_eq_false_iff.mpr (Tree.ne_nil_of_sameAll hsame filled)
    refine ⟨_, behind, .cons (by decide) (.block (congrArg Prod.fst ho) hf (congrArg Prod.fst hc))
      hrest, ?_⟩
    rw [hne]
    simp [Tree.sameAll, Tree.same, hsame, hall]

end Grammar

end ExprLang
