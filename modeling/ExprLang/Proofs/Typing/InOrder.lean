import ExprLang.Proofs.Typing.Bare

/-!
# The order of a type check

A type check goes through the operators of a tree in post-order, gives each the type that the table
has for it, and stops in front of the first that is blocked.

* `derived`: the type of a tree, computed from its leaves whatever its operators carry.
* `blockage`: what blocks an operator, if anything does.
* `Sweep`: operators are gone through one by one, up to the first that is blocked.
* `swept`: so does a type check.
* **`check_in_order`**: what it answers, what it changes, and what it does not depend on.
-/

namespace ExprLang.Tree

/-! ## Types from the leaves -/

/-- The type of an operator between operands of these types, if they have types. -/
def derivedPair (table : TypingTable) (operator : Token) (left right : Option DataType) :
    Option DataType := do
  table.binary? operator.kind (← left) (← right)

/-- The type of a tree, computed from its leaves. -/
def derived (table : TypingTable) : Tree → Option DataType
  | unary operator _ operand => do table.unary? operator.kind (← derived table operand)
  | binary operator _ left right | assignment operator _ left right =>
    derivedPair table operator (derived table left) (derived table right)
  | literal _ type => some type
  | reference _ type _ | declaration _ type _ => type
  | empty | block _ => none

/-- The diagnostic for an operand without a type. -/
def untyped (operand : Tree) : Diagnostic :=
  ⟨.undeterminedType (operand.token?.elim "" Token.value), operand.token?.elim 0 Token.line⟩

/-- What blocks an operator between two operands: the first that has no type, or else that the
table has no entry. -/
def blockagePair (table : TypingTable) (operator : Token) (left right : Tree) :
    Option Diagnostic :=
  match derived table left, derived table right with
  | none, _ => some left.untyped
  | some _, none => some right.untyped
  | some x, some y =>
    match table.binary? operator.kind x y with
    | none => some ⟨.binaryMismatch operator.value x.id y.id, operator.line⟩
    | some _ => none

/-- What blocks an operator: an operand that has no type, or else that the table has no entry. -/
def blockage (table : TypingTable) : Tree → Option Diagnostic
  | unary operator _ operand =>
    match derived table operand with
    | none => some operand.untyped
    | some x =>
      match table.unary? operator.kind x with
      | none => some ⟨.unaryMismatch operator.value x.id, operator.line⟩
      | some _ => none
  | binary operator _ left right | assignment operator _ left right =>
    blockagePair table operator left right
  | _ => none

variable {table : TypingTable}

/-! ## Operators one by one -/

/-- `Sweep table before after fault`: the operators are gone through in order. Each gets its type,
up to the first that is blocked; that one and the others keep theirs. -/
inductive Sweep (table : TypingTable) : List Tree → List Tree → Option Diagnostic → Prop
  | done : Sweep table [] [] none
  | typed {node node' : Tree} {type : DataType} {rest rest' : List Tree}
      {fault : Option Diagnostic} (free : blockage table node = none)
      (result : derived table node = some type) (given : node'.type? = some type)
      (others : Sweep table rest rest' fault) : Sweep table (node :: rest) (node' :: rest') fault
  | stopped {node : Tree} {rest after : List Tree} {d : Diagnostic}
      (blocked : blockage table node = some d)
      (kept : after.map type? = (node :: rest).map type?) :
      Sweep table (node :: rest) after (some d)

namespace Sweep

variable {xs xs' ys ys' : List Tree} {fault : Option Diagnostic} {d : Diagnostic}

theorem append (h : Sweep table xs xs' none) (h' : Sweep table ys ys' fault) :
    Sweep table (xs ++ ys) (xs' ++ ys') fault := by
  generalize hf : none = first at h
  induction h with
  | done => exact h'
  | typed free result given _ ih => exact .typed free result given (ih hf)
  | stopped => cases hf

theorem append_kept (h : Sweep table xs xs' (some d)) (hk : ys'.map type? = ys.map type?) :
    Sweep table (xs ++ ys) (xs' ++ ys') (some d) := by
  generalize hf : some d = first at h
  induction h with
  | done => cases hf
  | typed free result given _ ih => exact .typed free result given (ih hf)
  | stopped blocked kept =>
    cases hf
    refine .stopped blocked ?_
    rw [List.map_append, kept, hk, ← List.map_append]
    rfl

/-- The fault is that of the first operator that is blocked, if one is. -/
theorem fault_eq (h : Sweep table xs xs' fault) : fault = xs.findSome? (blockage table) := by
  induction h with
  | done => rfl
  | typed free _ _ _ ih => rw [List.findSome?_cons, free, ih]
  | stopped blocked => rw [List.findSome?_cons, blocked]

/-- Without a fault every operator gets its type. -/
theorem types_of_none (h : Sweep table xs xs' none) :
    xs'.map type? = xs.map (derived table) ∧ ∀ x ∈ xs, (derived table x).isSome = true := by
  generalize hf : none = fault at h
  induction h with
  | done => exact ⟨rfl, List.forall_mem_nil _⟩
  | typed _ result given _ ih =>
    obtain ⟨htypes, hsome⟩ := ih hf
    rw [List.map_cons, List.map_cons, htypes, given, result]
    exact ⟨rfl, List.forall_mem_cons.mpr ⟨by rw [result]; rfl, hsome⟩⟩
  | stopped => cases hf

/-- The first operator that is blocked is what the answer says, and only those in front of it get
their types. -/
theorem stops_at {before after : List Tree} {node : Tree}
    (h : Sweep table (before ++ node :: after) xs' fault)
    (free : ∀ x ∈ before, blockage table x = none) (blocked : blockage table node = some d) :
    fault = some d ∧ xs'.map type? = before.map (derived table) ++ (node :: after).map type? ∧
      ∀ x ∈ before, (derived table x).isSome = true := by
  induction before generalizing xs' with
  | nil =>
    cases h with
    | typed free' =>
      rw [blocked] at free'
      cases free'
    | stopped blocked' kept => exact ⟨blocked'.symm.trans blocked, kept, List.forall_mem_nil _⟩
  | cons x before ih =>
    obtain ⟨hx, hbefore⟩ := List.forall_mem_cons.mp free
    cases h with
    | typed _ result given others =>
      obtain ⟨hf, htypes, hsome⟩ := ih others hbefore
      rw [List.map_cons, given, htypes, ← result]
      exact ⟨hf, rfl, List.forall_mem_cons.mpr ⟨by rw [result]; rfl, hsome⟩⟩
    | stopped blocked' =>
      rw [hx] at blocked'
      cases blocked'

end Sweep

/-! ## One operator -/

/-- What the check of an operator answers goes with what blocks it. -/
inductive Settles (table : TypingTable) (node : Tree) : Except Diagnostic DataType → Prop
  | blocked {d : Diagnostic} (h : blockage table node = some d) : Settles table node (.error d)
  | result {type : DataType} (free : blockage table node = none)
      (h : derived table node = some type) : Settles table node (.ok type)

/-- The checked tree stands for the tree as an operand: it has the same token, and the type that is
derived for the tree. -/
structure StandsFor (table : TypingTable) (tree checked : Tree) : Prop where
  token : checked.token? = tree.token?
  type : checked.type? = derived table tree

namespace StandsFor

variable {operand left right checked checkedLeft checkedRight : Tree}

theorem operandType_untyped (h : StandsFor table operand checked)
    (hx : derived table operand = none) : checked.operandType = .error operand.untyped := by
  unfold operandType untyped
  rw [h.type, h.token, hx]
  cases operand.token? <;> rfl

theorem operandType_typed (h : StandsFor table operand checked) {type : DataType}
    (hx : derived table operand = some type) : checked.operandType = .ok type := by
  unfold operandType
  rw [h.type, hx]

theorem settles_unary (h : StandsFor table operand checked) (operator : Token)
    (old : Option DataType) :
    Settles table (unary operator old operand) (unaryType table operator checked) := by
  unfold unaryType
  rcases hx : derived table operand with _ | x
  · rw [h.operandType_untyped hx]
    exact .blocked (by rw [blockage, hx])
  · rw [h.operandType_typed hx]
    simp only [bind, Except.bind]
    rcases hr : table.unary? operator.kind x with _ | result
    · exact .blocked (by simp only [blockage, hx, hr])
    · exact .result (by simp only [blockage, hx, hr])
        (by simp only [derived, hx, bind, Option.bind, hr])

theorem settles_binary (hl : StandsFor table left checkedLeft)
    (hr : StandsFor table right checkedRight) {operator : Token} {node : Tree}
    (hblockage : blockage table node = blockagePair table operator left right)
    (hderived : derived table node =
      derivedPair table operator (derived table left) (derived table right)) :
    Settles table node (binaryType table operator checkedLeft checkedRight) := by
  unfold blockagePair at hblockage
  unfold binaryType
  rcases hx : derived table left with _ | x <;> rw [hx] at hblockage hderived
  · rw [hl.operandType_untyped hx]
    exact .blocked hblockage
  · rw [hl.operandType_typed hx]
    rcases hy : derived table right with _ | y <;> rw [hy] at hblockage hderived
    · rw [hr.operandType_untyped hy]
      exact .blocked hblockage
    · rw [hr.operandType_typed hy]
      simp only [bind, Except.bind]
      rcases hz : table.binary? operator.kind x y with _ | result <;> simp only [hz] at hblockage
      · exact .blocked hblockage
      · exact .result hblockage (hderived.trans hz)

end StandsFor

theorem Settles.sweep {node : Tree} {type : Except Diagnostic DataType}
    (h : Settles table node type) (node' : Tree) (ht : node'.type? = typeAfter node.type? type) :
    Sweep table [node] [node'] (faultOf type) ∧
      (faultOf type = none → node'.type? = derived table node) := by
  cases h with
  | blocked h =>
    refine ⟨.stopped h ?_, nofun⟩
    rw [List.map_singleton, List.map_singleton, ht]
    rfl
  | result free h => exact ⟨.typed free h ht .done, fun _ => ht.trans h.symm⟩

/-! ## Whole trees -/

/-- The check has gone through the operators of the tree, and if nothing stopped it, what it leaves
stands for the tree. -/
structure Swept (table : TypingTable) (tree : Tree) (checked : Checked) : Prop where
  sweep : Sweep table tree.operators checked.tree.operators checked.fault
  stands : checked.fault = none → StandsFor table tree checked.tree

theorem Swept.leaf {tree : Tree} (ho : tree.operators = []) (ht : tree.type? = derived table tree) :
    Swept table tree ⟨tree, none⟩ := by
  refine ⟨?_, fun _ => ⟨rfl, ht⟩⟩
  rw [ho]
  exact .done

theorem Swept.unary {operand : Tree} {x : Checked} (h : Swept table operand x) (operator : Token)
    (old : Option DataType) :
    Swept table (unary operator old operand)
      (let type := match x.fault with
        | some d => .error d
        | none => unaryType table operator x.tree
      ⟨.unary operator (typeAfter old type) x.tree, faultOf type⟩) := by
  obtain ⟨x, _ | d⟩ := x
  · obtain ⟨hsweep, htype⟩ := ((h.stands rfl).settles_unary operator old).sweep
      (.unary operator (typeAfter old (unaryType table operator x)) x) rfl
    exact ⟨h.sweep.append hsweep, fun hf => ⟨rfl, htype hf⟩⟩
  · exact ⟨h.sweep.append_kept rfl, nofun⟩

/-- A node with two operands, be it an assignment or not: `make` puts it together. -/
theorem Swept.binary {left right : Tree} {l r : Checked} (hl : Swept table left l)
    (hr : Swept table right r) (operator : Token) (old : Option DataType)
    (make : Option DataType → Tree → Tree → Tree)
    (hops : ∀ type x y, (make type x y).operators = x.operators ++ y.operators ++ [make type x y])
    (htype : ∀ type x y, (make type x y).type? = type)
    (htoken : ∀ type x y, (make type x y).token? = some operator)
    (hblockage : blockage table (make old left right) = blockagePair table operator left right)
    (hderived : derived table (make old left right) =
      derivedPair table operator (derived table left) (derived table right)) :
    Swept table (make old left right)
      (let r := if l.fault.isSome then ⟨right, none⟩ else r
      let type := pairType table operator l r
      ⟨make (typeAfter old type) l.tree r.tree, faultOf type⟩) := by
  -- The operands are swept first. The operator comes last, unless one of them stopped the check.
  obtain ⟨x, _ | d⟩ := l
  · obtain ⟨y, _ | d⟩ := r
    · have hs := (hl.stands rfl).settles_binary (hr.stands rfl) hblockage hderived
      obtain ⟨hsweep, hd⟩ := hs.sweep
        (make (typeAfter old (binaryType table operator x y)) x y) (by rw [htype, htype])
      refine ⟨?_, fun hf => ⟨(htoken _ _ _).trans (htoken _ _ _).symm, hd hf⟩⟩
      rw [hops]
      simp only [hops]
      exact (hl.sweep.append hr.sweep).append hsweep
    · refine ⟨?_, nofun⟩
      rw [hops]
      simp only [hops]
      refine (hl.sweep.append hr.sweep).append_kept ?_
      rw [List.map_singleton, List.map_singleton, htype, htype]
      rfl
  · refine ⟨?_, nofun⟩
    rw [hops]
    simp only [hops, List.append_assoc]
    refine hl.sweep.append_kept ?_
    rw [List.map_append, List.map_append, List.map_singleton, List.map_singleton, htype, htype]
    rfl

mutual

/-- **A type check goes through the operators of a tree in post-order.** -/
theorem swept (table : TypingTable) : ∀ tree : Tree, Swept table tree (tree.check table)
  | literal .. | reference .. | declaration .. | empty => .leaf rfl rfl
  | unary operator old operand => by
    rw [check]
    exact (swept table operand).unary operator old
  | binary operator old left right => by
    rw [check]
    exact (swept table left).binary (swept table right) operator old (binary operator)
      (fun _ _ _ => rfl) (fun _ _ _ => rfl) (fun _ _ _ => rfl) rfl rfl
  | assignment operator old target value => by
    rw [check]
    exact (swept table target).binary (swept table value) operator old (assignment operator)
      (fun _ _ _ => rfl) (fun _ _ _ => rfl) (fun _ _ _ => rfl) rfl rfl
  | block statements => by
    rw [check]
    exact ⟨sweptAll table statements, fun _ => ⟨rfl, rfl⟩⟩

theorem sweptAll (table : TypingTable) : ∀ trees : List Tree,
    Sweep table (operatorsAll trees) (operatorsAll (checkAll table trees).trees)
      (checkAll table trees).fault
  | [] => .done
  | tree :: rest => by
    have h := (swept table tree).sweep
    rw [checkAll]
    generalize tree.check table = x at h
    obtain ⟨x, _ | d⟩ := x
    · exact h.append (sweptAll table rest)
    · exact h.append_kept rfl

end

/-! ## What the answer depends on -/

theorem derived_bare : ∀ tree : Tree, derived table tree.bare = derived table tree
  | literal .. | reference .. | declaration .. | empty | block _ => rfl
  | unary operator type operand => by
    rw [bare, derived, derived, derived_bare operand]
  | binary operator type left right => by
    rw [bare, derived, derived, derived_bare left, derived_bare right]
  | assignment operator type target value => by
    rw [bare, derived, derived, derived_bare target, derived_bare value]

theorem untyped_bare (tree : Tree) : tree.bare.untyped = tree.untyped := by cases tree <;> rfl

theorem blockage_bare (tree : Tree) : blockage table tree.bare = blockage table tree := by
  cases tree with
  | unary => simp only [bare, blockage, derived_bare, untyped_bare]
  | binary | assignment => simp only [bare, blockage, blockagePair, derived_bare, untyped_bare]
  | _ => rfl

theorem derived_eq_of_bare_eq {x y : Tree} (h : x.bare = y.bare) :
    derived table x = derived table y := by
  rw [← derived_bare x, h, derived_bare y]

theorem blockage_eq_of_bare_eq {x y : Tree} (h : x.bare = y.bare) :
    blockage table x = blockage table y := by
  rw [← blockage_bare x, h, blockage_bare y]

theorem map_bare_operators {x y : Tree} (h : x.bare = y.bare) :
    x.operators.map bare = y.operators.map bare := by
  rw [← operators_bare, ← operators_bare, h]

namespace Sweep

variable {xs xs' ys ys' : List Tree} {fault fault' : Option Diagnostic}

theorem congr (hbare : xs.map bare = ys.map bare) (h : Sweep table xs xs' fault)
    (h' : Sweep table ys ys' fault') :
    fault = fault' ∧ (fault' = none → xs'.map type? = ys'.map type?) := by
  have hfind : ∀ trees : List Tree,
      trees.findSome? (blockage table) = (trees.map bare).findSome? (blockage table) := by
    intro trees
    rw [List.findSome?_map]
    exact congrArg (trees.findSome? ·) (funext fun tree => (blockage_bare tree).symm)
  have hderived : ∀ trees : List Tree,
      trees.map (derived table) = (trees.map bare).map (derived table) := by
    intro trees
    rw [List.map_map]
    exact congrArg (trees.map ·) (funext fun tree => (derived_bare tree).symm)
  obtain rfl : fault = fault' := by rw [h.fault_eq, h'.fault_eq, hfind, hbare, ← hfind]
  refine ⟨rfl, ?_⟩
  rintro rfl
  rw [h.types_of_none.1, h'.types_of_none.1, hderived, hbare, ← hderived]

/-- Going through the operators again changes nothing. -/
theorem again (hbare : xs'.map bare = xs.map bare) (h : Sweep table xs xs' fault)
    (h' : Sweep table xs' ys fault') : ys.map type? = xs'.map type? := by
  induction h generalizing ys with
  | done =>
    cases h'
    rfl
  | @typed node node' type rest rest' fault free result given _ ih =>
    obtain ⟨hnode, hrest⟩ := List.cons.inj hbare
    cases h' with
    | typed _ result' given' others =>
      rw [derived_eq_of_bare_eq hnode, result] at result'
      rw [List.map_cons, List.map_cons, given', given, result', ih hrest others]
    | stopped blocked =>
      rw [blockage_eq_of_bare_eq hnode, free] at blocked
      cases blocked
  | stopped blocked =>
    cases h' with
    | done => cases hbare
    | typed free =>
      rw [blockage_eq_of_bare_eq (List.cons.inj hbare).1, blocked] at free
      cases free
    | stopped _ kept => exact kept

end Sweep

theorem checked_eq_of_bare_eq {x y : Checked} (hbare : x.tree.bare = y.tree.bare)
    (hcarried : x.tree.carried = y.tree.carried) (hfault : x.fault = y.fault) : x = y := by
  obtain ⟨x, fault⟩ := x
  obtain ⟨y, fault'⟩ := y
  obtain rfl : x = y := Tree.eq_of_bare_eq hbare hcarried
  obtain rfl : fault = fault' := hfault
  rfl

/-- **The order of a type check.** It types operators in post-order up to the first that is blocked,
and what they carried before has no part in that. -/
theorem check_in_order (table : TypingTable) (tree : Tree) :
    (tree.check table).tree.bare = tree.bare ∧
    ((tree.check table).fault = none ↔ ∀ node ∈ tree.operators, blockage table node = none) ∧
    ((tree.check table).fault = none →
      (tree.check table).tree.carried = tree.operators.map (derived table) ∧
      ∀ node ∈ tree.operators, (derived table node).isSome = true) ∧
    (∀ (before after : List Tree) (node : Tree) (d : Diagnostic),
      tree.operators = before ++ node :: after → (∀ x ∈ before, blockage table x = none) →
      blockage table node = some d →
        (tree.check table).fault = some d ∧
        (tree.check table).tree.carried =
          before.map (derived table) ++ (node :: after).map type? ∧
        ∀ x ∈ before, (derived table x).isSome = true) ∧
    (tree.check table).tree.check table = tree.check table ∧
    ∀ other : Tree, other.bare = tree.bare →
      (other.check table).fault = (tree.check table).fault ∧
      ((tree.check table).fault = none → other.check table = tree.check table) := by
  have hsweep := (swept table tree).sweep
  have hcongr : ∀ other : Tree, other.bare = tree.bare →
      (other.check table).fault = (tree.check table).fault ∧
      ((tree.check table).fault = none → other.check table = tree.check table) := by
    intro other hbare
    obtain ⟨hfault, htypes⟩ := (swept table other).sweep.congr (map_bare_operators hbare) hsweep
    refine ⟨hfault, fun hnone => checked_eq_of_bare_eq ?_ (htypes hnone) hfault⟩
    rw [bare_check, bare_check, hbare]
  have hbare := bare_check table tree
  refine ⟨hbare, ?_, ?_, ?_, ?_, hcongr⟩
  · rw [hsweep.fault_eq, List.findSome?_eq_none_iff]
  · intro hnone
    rw [hnone] at hsweep
    exact hsweep.types_of_none
  · intro before after node d hsplit free blocked
    rw [hsplit] at hsweep
    exact hsweep.stops_at free blocked
  · exact checked_eq_of_bare_eq (bare_check table _)
      (hsweep.again (map_bare_operators hbare) (swept table _).sweep) (hcongr _ hbare).1

/-- The sum `1 + 2`, which has not been typed. -/
def untypedSum : Tree :=
  .binary ⟨.plus, "+", 1⟩ none (.literal ⟨.intLiteral, "1", 1⟩ .int)
    (.literal ⟨.intLiteral, "2", 1⟩ .int)

/-- The sign in `-true`. -/
def negatedTruth : Tree :=
  .unary ⟨.dash, "-", 2⟩ none (.literal ⟨.boolLiteral, "true", 2⟩ .bool)

/-- Their product, in which the sign is the second of three operators. -/
def negatedFactor : Tree := .binary ⟨.star, "*", 2⟩ none untypedSum negatedTruth

theorem check_in_order_negatedTruth :
    negatedFactor.operators = [untypedSum, negatedTruth, negatedFactor] ∧
      blockage .standard untypedSum = none ∧
      blockage .standard negatedTruth = some ⟨.unaryMismatch "-" "Bool", 2⟩ ∧
      (untypedSum.check .standard).fault = none ∧
      (untypedSum.check .standard).tree.carried = [some .int] ∧
      (negatedFactor.check .standard).fault = some ⟨.unaryMismatch "-" "Bool", 2⟩ ∧
      (negatedFactor.check .standard).tree.carried = [some .int, none, none] := by
  have hfree : blockage .standard untypedSum = none := rfl
  have hblocked : blockage .standard negatedTruth = some ⟨.unaryMismatch "-" "Bool", 2⟩ := rfl
  obtain ⟨-, hiff, hnone, -⟩ := check_in_order .standard untypedSum
  have hsum := hiff.mpr (List.forall_mem_singleton.mpr hfree)
  obtain ⟨-, -, -, hsplit, -⟩ := check_in_order .standard negatedFactor
  obtain ⟨hfault, hcarried, -⟩ := hsplit [untypedSum] [negatedFactor] negatedTruth _ rfl
    (List.forall_mem_singleton.mpr hfree) hblocked
  exact ⟨rfl, hfree, hblocked, hsum, (hnone hsum).1, hfault, hcarried⟩

end ExprLang.Tree
