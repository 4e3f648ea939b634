import ExprLang.Proofs.Parse.Passage
import ExprLang.Vocabulary.Standard

/-!
# Soundness of typing

In the trees of an accepted program every node has the type that vocabulary and typing table demand
of it.

* `NodeTyped`: what is demanded of a single node.
* `Resolved.check_typed`: a checked expression with a type is typed at every node.
* `Settled`: no symbol in scope waits for its type. This holds behind every statement; only inside
  its own initializer a symbol may be without one.
* **`typed_of_parse`**: accepted programs are typed at every node.
-/

namespace ExprLang

/-- What vocabulary and typing table demand of a node and the types of its children. -/
def NodeTyped (v : Vocabulary) (table : TypingTable) : Tree → Prop
  | .literal token type => v.literalType? token.kind = some type
  | .reference _ type _ => type.isSome = true
  | .declaration _ type _ => type.isSome = true
  | .unary operator type operand => ∃ x result, operand.type? = some x ∧ type = some result ∧
      table.unary? operator.kind x = some result
  | .binary operator type left right => ∃ x y result, left.type? = some x ∧
      right.type? = some y ∧ type = some result ∧ table.binary? operator.kind x y = some result
  | .assignment _ type (.declaration _ declared _) value => ∃ x y z, type = some x ∧
      declared = some y ∧ value.type? = some z ∧ x.id = y.id ∧ y.id = z.id
  | .assignment operator type (.reference _ target _) value => ∃ x y result, target = some x ∧
      value.type? = some y ∧ type = some result ∧ table.binary? operator.kind x y = some result
  | .assignment .. => False
  | .empty => False
  | .block statements => statements ≠ []

/-- Every node of the trees, at any depth, is typed. -/
def AllTyped (v : Vocabulary) (table : TypingTable) (trees : List Tree) : Prop :=
  ∀ node ∈ Tree.preorderAll trees, NodeTyped v table node

variable {v : Vocabulary} {table : TypingTable}

theorem Tree.preorderAll_append (xs ys : List Tree) :
    preorderAll (xs ++ ys) = preorderAll xs ++ preorderAll ys := by
  induction xs with
  | nil => rfl
  | cons x xs ih => rw [List.cons_append, preorderAll, preorderAll, ih, List.append_assoc]

theorem Tree.preorderAll_singleton (tree : Tree) : preorderAll [tree] = preorder tree :=
  List.append_nil _

theorem AllTyped.append {xs ys : List Tree} (h : AllTyped v table xs) (h' : AllTyped v table ys) :
    AllTyped v table (xs ++ ys) := by
  unfold AllTyped
  rw [Tree.preorderAll_append]
  exact List.forall_mem_append.mpr ⟨h, h'⟩

/-! ## Symbols -/

/-- Every symbol in scope has a type. -/
def Settled (scopes : Scopes) : Prop :=
  ∀ id symbol, scopes.lookup id = some symbol → symbol.type.isSome = true

theorem settled_root : Settled .root := by
  intro id symbol h
  cases h

theorem Settled.push {scopes : Scopes} (h : Settled scopes) : Settled scopes.push := h

theorem Settled.declare {scopes behind : Scopes} {symbol : Symbol} (h : Settled scopes)
    (hd : scopes.declare? symbol = some behind) (ht : symbol.type.isSome = true) :
    Settled behind := by
  intro id found hl
  rw [Scopes.lookup_declare hd] at hl
  split at hl
  · cases hl
    exact ht
  · exact h id found hl

/-- The symbol of a declaration may wait for its type; no other does, and then it gets one. -/
theorem Settled.resolve {scopes inner : Scopes} {symbol : Symbol} (h : Settled scopes)
    (hd : scopes.declare? symbol = some inner) (type : DataType) :
    Settled (inner.resolve symbol.id type) := by
  have hlocal : (inner.lookupLocal symbol.id).isSome = true := by
    unfold Scopes.declare? at hd
    split at hd
    · cases hd
    · cases hd
      simp [Scopes.lookupLocal]
  intro id found hl
  rw [Scopes.lookup_resolve] at hl
  split at hl
  · obtain ⟨old, -, rfl⟩ := Option.map_eq_some_iff.mp hl
    rfl
  · next hne =>
    rw [Scopes.lookup_declare hd, if_neg fun he => hne ⟨he, hlocal⟩] at hl
    exact h id found hl

/-! ## Checked expressions -/

theorem operandType_eq_ok {tree : Tree} {type : DataType} (h : tree.operandType = .ok type) :
    tree.type? = some type := by
  unfold Tree.operandType at h
  split at h
  · next ht =>
    cases h
    exact ht
  · split at h <;> cases h

theorem unaryType_eq_ok {operator : Token} {operand : Tree} {type : DataType}
    (h : Tree.unaryType table operator operand = .ok type) :
    ∃ x, operand.type? = some x ∧ table.unary? operator.kind x = some type := by
  unfold Tree.unaryType at h
  rcases hx : operand.operandType with d | x <;> rw [hx] at h
  · cases h
  · simp only [bind, Except.bind] at h
    split at h
    · next hu =>
      cases h
      exact ⟨x, operandType_eq_ok hx, hu⟩
    · cases h

theorem binaryType_eq_ok {operator : Token} {left right : Tree} {type : DataType}
    (h : Tree.binaryType table operator left right = .ok type) :
    ∃ x y, left.type? = some x ∧ right.type? = some y ∧
      table.binary? operator.kind x y = some type := by
  unfold Tree.binaryType at h
  rcases hx : left.operandType with d | x <;> rw [hx] at h
  · cases h
  · rcases hy : right.operandType with d | y <;> rw [hy] at h
    · cases h
    · simp only [bind, Except.bind] at h
      split at h
      · next hb =>
        cases h
        exact ⟨x, y, operandType_eq_ok hx, operandType_eq_ok hy, hb⟩
      · cases h

theorem pairType_eq_ok {operator : Token} {left right : Checked} {type : DataType}
    (h : Tree.pairType table operator left right = .ok type) :
    left.fault = none ∧ right.fault = none ∧
      Tree.binaryType table operator left.tree right.tree = .ok type := by
  unfold Tree.pairType at h
  split at h
  · cases h
  · cases h
  · next hl hr => exact ⟨hl, hr, h⟩

theorem faultOf_eq_none {type : Except Diagnostic DataType} (h : Tree.faultOf type = none) :
    ∃ result, type = .ok result := by
  cases type with
  | ok result => exact ⟨result, rfl⟩
  | error d => cases h

/-- A check that does not stop at an operator before an operand. -/
theorem check_unary_eq {operator : Token} {old : Option DataType} {operand checked : Tree}
    (h : (Tree.unary operator old operand).check table = ⟨checked, none⟩) :
    ∃ x type result, operand.check table = ⟨x, none⟩ ∧ x.type? = some type ∧
      table.unary? operator.kind type = some result ∧
      checked = .unary operator (some result) x := by
  rw [Tree.check] at h
  rcases hx : operand.check table with ⟨x, _ | d⟩ <;> rw [hx] at h
  · obtain ⟨rfl, hf⟩ := Checked.mk.inj h
    obtain ⟨result, hr⟩ := faultOf_eq_none hf
    obtain ⟨type, ht, hu⟩ := unaryType_eq_ok hr
    refine ⟨x, type, result, rfl, ht, hu, ?_⟩
    simp only at hr
    simp only [hr, Tree.typeAfter]
  · cases (Checked.mk.inj h).2

/-- What a check of two operands finds if it does not stop at their operator. -/
theorem exists_of_pairType {operator : Token} {left right : Tree} {r : Checked}
    (hr : (if (left.check table).fault.isSome then ⟨right, none⟩ else right.check table) = r)
    (h : Tree.faultOf (Tree.pairType table operator (left.check table) r) = none) :
    ∃ l y x z result, left.check table = ⟨l, none⟩ ∧ right.check table = ⟨y, none⟩ ∧ r.tree = y ∧
      l.type? = some x ∧ y.type? = some z ∧ table.binary? operator.kind x z = some result ∧
      Tree.pairType table operator (left.check table) r = .ok result := by
  obtain ⟨result, hp⟩ := faultOf_eq_none h
  obtain ⟨hl, hf, hb⟩ := pairType_eq_ok hp
  obtain ⟨x, z, hx, hz, ht⟩ := binaryType_eq_ok hb
  rw [hl] at hr
  refine ⟨_, r.tree, x, z, result, ?_, ?_, rfl, hx, hz, ht, hp⟩
  · rw [← hl]
  · rw [← hf]
    exact hr

theorem check_binary_eq {operator : Token} {old : Option DataType} {left right checked : Tree}
    (h : (Tree.binary operator old left right).check table = ⟨checked, none⟩) :
    ∃ l r x y result, left.check table = ⟨l, none⟩ ∧ right.check table = ⟨r, none⟩ ∧
      l.type? = some x ∧ r.type? = some y ∧ table.binary? operator.kind x y = some result ∧
      checked = .binary operator (some result) l r := by
  rw [Tree.check] at h
  obtain ⟨rfl, hf⟩ := Checked.mk.inj h
  obtain ⟨l, r, x, y, result, hl, hr, htree, hx, hy, ht, hp⟩ := exists_of_pairType rfl hf
  refine ⟨l, r, x, y, result, hl, hr, hx, hy, ht, ?_⟩
  rw [hp, htree, hl, Tree.typeAfter]

theorem check_assignment_eq {operator : Token} {old : Option DataType}
    {target value checked : Tree}
    (h : (Tree.assignment operator old target value).check table = ⟨checked, none⟩) :
    ∃ l r x y result, target.check table = ⟨l, none⟩ ∧ value.check table = ⟨r, none⟩ ∧
      l.type? = some x ∧ r.type? = some y ∧ table.binary? operator.kind x y = some result ∧
      checked = .assignment operator (some result) l r := by
  rw [Tree.check] at h
  obtain ⟨rfl, hf⟩ := Checked.mk.inj h
  obtain ⟨l, r, x, y, result, hl, hr, htree, hx, hy, ht, hp⟩ := exists_of_pairType rfl hf
  refine ⟨l, r, x, y, result, hl, hr, hx, hy, ht, ?_⟩
  rw [hp, htree, hl, Tree.typeAfter]

/-- In settled scopes a checked expression has a type. -/
theorem Resolved.type_isSome {scopes : Scopes} {tree checked : Tree} (h : Resolved v scopes tree)
    (hs : Settled scopes) (hc : tree.check table = ⟨checked, none⟩) :
    checked.type?.isSome = true := by
  cases h with
  | literal =>
    cases hc
    rfl
  | reference known =>
    cases hc
    exact hs _ _ known
  | unary =>
    obtain ⟨x, type, result, -, -, -, rfl⟩ := check_unary_eq hc
    rfl
  | binary =>
    obtain ⟨l, r, x, y, result, -, -, -, -, -, rfl⟩ := check_binary_eq hc
    rfl
  | assignment =>
    obtain ⟨l, r, x, y, result, -, -, -, -, -, rfl⟩ := check_assignment_eq hc
    rfl

/-- A checked expression that has a type is typed at every node. The type is asked of the root only:
the check asks for those of all operands. -/
theorem Resolved.check_typed {scopes : Scopes} {tree checked : Tree} (h : Resolved v scopes tree)
    (hc : tree.check table = ⟨checked, none⟩) (ht : checked.type?.isSome = true) :
    ∀ node ∈ checked.preorder, NodeTyped v table node := by
  induction h generalizing checked with
  | literal known =>
    cases hc
    exact List.forall_mem_singleton.mpr known
  | reference known =>
    cases hc
    exact List.forall_mem_singleton.mpr ht
  | unary _ ih =>
    obtain ⟨x, type, result, hx, hxt, hu, rfl⟩ := check_unary_eq hc
    refine List.forall_mem_cons.mpr ⟨⟨type, result, hxt, rfl, hu⟩, ih hx ?_⟩
    rw [hxt, Option.isSome_some]
  | binary _ _ ihl ihr =>
    obtain ⟨l, r, x, y, result, hl, hr, hx, hy, hb, rfl⟩ := check_binary_eq hc
    refine List.forall_mem_cons.mpr ⟨⟨x, y, result, hx, hy, rfl, hb⟩, ?_⟩
    refine List.forall_mem_append.mpr ⟨ihl hl ?_, ihr hr ?_⟩
    · rw [hx, Option.isSome_some]
    · rw [hy, Option.isSome_some]
  | assignment known _ _ ih =>
    obtain ⟨l, r, x, y, result, hl, hr, hx, hy, hb, rfl⟩ := check_assignment_eq hc
    cases hl
    refine List.forall_mem_cons.mpr ⟨⟨x, y, result, hx, hy, rfl, hb⟩, ?_⟩
    refine List.forall_mem_append.mpr ⟨List.forall_mem_singleton.mpr ?_, ih hr ?_⟩
    · exact Option.isSome_of_eq_some hx
    · rw [hy, Option.isSome_some]

/-! ## Passages -/

namespace Grammar

variable {g : Grammar}

theorem unify_eq_ok {declared received : Option DataType} {line : UInt32} {type : DataType}
    (h : unify declared received line = .ok type) :
    ∃ found, received = some found ∧ type.id = found.id ∧ ∀ t, declared = some t → type = t := by
  rcases declared with _ | expected <;> rcases received with _ | found
  · cases h
  · cases h
    exact ⟨type, rfl, rfl, fun _ h => nomatch h⟩
  · cases h
  · simp only [unify] at h
    split at h
    · next hs =>
      cases h
      exact ⟨found, rfl, DataType.same_iff.mp hs, fun _ h => Option.some.inj h⟩
    · cases h

theorem Forms.typed {passage : Passage} {room : Nat} {before behind : Scopes}
    {tokens : List Token} {trees : List Tree}
    (h : Forms g passage room before tokens trees behind) (hs : Settled before) :
    Settled behind ∧ AllTyped g.vocabulary g.typing trees := by
  induction h with
  | semicolon | nil => exact ⟨hs, List.forall_mem_nil _⟩
  | expression _ _ content typed =>
    refine ⟨hs, ?_⟩
    have hr := content.resolved fun _ _ _ h => nomatch h
    unfold AllTyped
    rw [Tree.preorderAll_singleton]
    exact hr.check_typed typed (hr.type_isSome hs typed)
  | bare _ _ _ fresh _ =>
    refine ⟨hs.declare fresh rfl, ?_⟩
    exact List.forall_mem_singleton.mpr rfl
  | initialized _ _ _ fresh _ content _ typed unified =>
    refine ⟨hs.resolve fresh _, ?_⟩
    obtain ⟨found, hv, hid, -⟩ := unify_eq_ok unified
    have hr := content.resolved fun _ _ _ h => nomatch h
    unfold AllTyped
    rw [Tree.preorderAll_singleton]
    refine List.forall_mem_cons.mpr ⟨⟨_, _, found, rfl, rfl, hv, rfl, hid⟩, ?_⟩
    refine List.forall_mem_append.mpr ⟨List.forall_mem_singleton.mpr rfl, ?_⟩
    exact hr.check_typed typed (Option.isSome_of_eq_some hv)
  | block _ content _ ih =>
    refine ⟨hs, ?_⟩
    split_ifs with hempty
    · exact List.forall_mem_nil _
    · obtain ⟨-, hall⟩ := ih hs.push
      unfold AllTyped
      rw [Tree.preorderAll_singleton]
      refine List.forall_mem_cons.mpr ⟨?_, hall⟩
      exact fun he => hempty (List.isEmpty_iff.mpr he)
  | cons _ _ _ ih ih' =>
    obtain ⟨hm, hx⟩ := ih hs
    obtain ⟨hb, hy⟩ := ih' hm
    exact ⟨hb, hx.append hy⟩

/-- **Every node of an accepted program is typed**: by the vocabulary if it is a literal, by the
typing table if it is an operator, and without a rest of untyped names, semicolons and empty
blocks. -/
theorem typed_of_parse {source : Source} {units : List Tree} (h : g.parse source = .ok units) :
    AllTyped g.vocabulary g.typing units := by
  obtain ⟨tokens, last, stream, scopes, -, -, -, hf⟩ := forms_of_parse h
  exact (hf.typed settled_root).2

theorem typed_nested_blocks : ∃ units,
    (standard .standard .standard 16).parse
      (.ofString "const a : Float = 2.5; \x7b var b = a * -3; \x7b b = b; b; \x7d \x7d") =
        .ok units ∧ AllTyped .standard .standard units := by
  obtain ⟨units, h⟩ := exists_of_isOk <| show ((standard .standard .standard 16).parse
    (.ofString "const a : Float = 2.5; \x7b var b = a * -3; \x7b b = b; b; \x7d \x7d")).isOk =
      true by decide +kernel
  exact ⟨units, h, typed_of_parse h⟩

end Grammar

end ExprLang
