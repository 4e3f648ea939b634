import ExprLang.Typing.Check

/-!
# Trees without the types of their operators

A type check gives types to operators and changes nothing else in a tree.

* `operators`: the operator nodes of a tree, in post-order.
* `bare`: the tree without the types of its operators.
* **`eq_of_bare_eq`**: a tree is known from its bare form and the types its operators carry.
* **`bare_check`**: a type check leaves the bare form as it is.
-/

namespace ExprLang.Tree

mutual

/-- The operator nodes of a tree in post-order: left before right, and each behind its operands. -/
def operators : Tree → List Tree
  | unary operator type operand => operators operand ++ [unary operator type operand]
  | binary operator type left right =>
    operators left ++ operators right ++ [binary operator type left right]
  | assignment operator type target value =>
    operators target ++ operators value ++ [assignment operator type target value]
  | block statements => operatorsAll statements
  | literal .. | reference .. | declaration .. | empty => []

/-- The operator nodes of trees, tree by tree. -/
def operatorsAll : List Tree → List Tree
  | [] => []
  | tree :: rest => operators tree ++ operatorsAll rest

end

mutual

/-- The tree without the types of its operators. -/
def bare : Tree → Tree
  | unary operator _ operand => unary operator none (bare operand)
  | binary operator _ left right => binary operator none (bare left) (bare right)
  | assignment operator _ target value => assignment operator none (bare target) (bare value)
  | block statements => block (bareAll statements)
  | literal token type => literal token type
  | reference token type assignable => reference token type assignable
  | declaration name type assignable => declaration name type assignable
  | empty => empty

/-- Trees without the types of their operators. -/
def bareAll : List Tree → List Tree
  | [] => []
  | tree :: rest => bare tree :: bareAll rest

end

/-- The types that the operators of a tree carry, in post-order. -/
def carried (tree : Tree) : List (Option DataType) := tree.operators.map type?

/-! ## Operators of bare trees -/

mutual

theorem operators_bare : ∀ tree : Tree, tree.bare.operators = tree.operators.map bare
  | literal .. | reference .. | declaration .. | empty => rfl
  | unary operator type operand => by
    rw [bare, operators, operators, operators_bare operand, List.map_append]
    rfl
  | binary operator type left right => by
    rw [bare, operators, operators, operators_bare left, operators_bare right, List.map_append,
      List.map_append]
    rfl
  | assignment operator type target value => by
    rw [bare, operators, operators, operators_bare target, operators_bare value, List.map_append,
      List.map_append]
    rfl
  | block statements => by
    rw [bare, operators, operators, operatorsAll_bareAll statements]

theorem operatorsAll_bareAll :
    ∀ trees : List Tree, operatorsAll (bareAll trees) = (operatorsAll trees).map bare
  | [] => rfl
  | tree :: rest => by
    rw [bareAll, operatorsAll, operatorsAll, operators_bare tree, operatorsAll_bareAll rest,
      List.map_append]

end

theorem length_operators_eq {x y : Tree} (h : x.bare = y.bare) :
    x.operators.length = y.operators.length := by
  have hmap := congrArg List.length (congrArg operators h)
  rwa [operators_bare, operators_bare, List.length_map, List.length_map] at hmap

/-! ## What is left when the bare form is known -/

/-- The types in a node with two operands, taken apart. -/
theorem carried_pair_inj {x x' node node' : Tree} {ys ys' : List Tree} (h : x.bare = x'.bare)
    (ht : (x.operators ++ ys ++ [node]).map type? = (x'.operators ++ ys' ++ [node']).map type?) :
    x.carried = x'.carried ∧ ys.map type? = ys'.map type? ∧ node.type? = node'.type? := by
  simp only [List.map_append] at ht
  obtain ⟨hinner, hown⟩ := List.append_inj' ht rfl
  -- Bare forms tell how many operators there are, and so where the first part ends.
  obtain ⟨hleft, hright⟩ := List.append_inj hinner (by
    rw [List.length_map, List.length_map, length_operators_eq h])
  exact ⟨hleft, hright, (List.cons.inj hown).1⟩

mutual

/-- **A tree is its bare form with the types its operators carry.** -/
theorem eq_of_bare_eq : ∀ {x y : Tree}, x.bare = y.bare → x.carried = y.carried → x = y
  | literal .., y, h, _ | reference .., y, h, _ | declaration .., y, h, _ | empty, y, h, _ => by
    cases y <;> cases h
    rfl
  | unary operator type operand, y, h, ht => by
    cases y with
    | unary _ type' _ =>
      obtain ⟨rfl, -, hx⟩ := unary.inj h
      simp only [carried, operators, List.map_append] at ht
      obtain ⟨hinner, hown⟩ := List.append_inj' ht rfl
      obtain rfl : type = type' := (List.cons.inj hown).1
      rw [eq_of_bare_eq hx hinner]
    | _ => cases h
  | binary operator type left right, y, h, ht => by
    cases y with
    | binary _ type' _ _ =>
      obtain ⟨rfl, -, hl, hr⟩ := binary.inj h
      obtain ⟨hleft, hright, htype⟩ := carried_pair_inj hl ht
      obtain rfl : type = type' := htype
      rw [eq_of_bare_eq hl hleft, eq_of_bare_eq hr hright]
    | _ => cases h
  | assignment operator type target value, y, h, ht => by
    cases y with
    | assignment _ type' _ _ =>
      obtain ⟨rfl, -, hl, hr⟩ := assignment.inj h
      obtain ⟨hleft, hright, htype⟩ := carried_pair_inj hl ht
      obtain rfl : type = type' := htype
      rw [eq_of_bare_eq hl hleft, eq_of_bare_eq hr hright]
    | _ => cases h
  | block statements, y, h, ht => by
    cases y with
    | block statements' => rw [eqAll_of_bareAll_eq (block.inj h) ht]
    | _ => cases h

theorem eqAll_of_bareAll_eq : ∀ {xs ys : List Tree}, bareAll xs = bareAll ys →
    (operatorsAll xs).map type? = (operatorsAll ys).map type? → xs = ys
  | [], ys, h, _ => by
    cases ys with
    | nil => rfl
    | cons => cases h
  | x :: xs, ys, h, ht => by
    cases ys with
    | nil => cases h
    | cons y ys =>
      obtain ⟨hx, hxs⟩ := List.cons.inj h
      simp only [operatorsAll, List.map_append] at ht
      obtain ⟨hfirst, hrest⟩ := List.append_inj ht (by
        rw [List.length_map, List.length_map, length_operators_eq hx])
      rw [eq_of_bare_eq hx hfirst, eqAll_of_bareAll_eq hxs hrest]

end

/-! ## Type checks -/

mutual

/-- **A type check leaves all but the types of operators as it is.** -/
theorem bare_check (table : TypingTable) : ∀ tree : Tree, (tree.check table).tree.bare = tree.bare
  | literal .. | reference .. | declaration .. | empty => rfl
  | unary operator old operand => by
    rw [check, bare, bare, bare_check table operand]
  | binary operator old left right => by
    rw [check, bare, bare, bare_check table left]
    split <;> simp only [bare_check table right]
  | assignment operator old target value => by
    rw [check, bare, bare, bare_check table target]
    split <;> simp only [bare_check table value]
  | block statements => by
    rw [check, bare, bare, bareAll_checkAll table statements]

theorem bareAll_checkAll (table : TypingTable) :
    ∀ trees : List Tree, bareAll (checkAll table trees).trees = bareAll trees
  | [] => rfl
  | tree :: rest => by
    rw [checkAll]
    split <;> simp only [bareAll, bare_check table tree, bareAll_checkAll table rest]

end

end ExprLang.Tree
