import ExprLang.Proofs.Tree.Alike

/-!
# Later lines

Tokens, failures and trees that stand some lines further down.

* `Token.shift`, `Failure.shift`, `Tree.shift`: the same on a later line.
* `Token.alike_later_iff`, `Failure.alike_later_iff`, **`Tree.UnitsAlike.eq_shift`**: what is alike
  on lines that are so much later is the same, shifted.
* `Tree.map_shift_map_shift`, `Tree.sameAll_map_shift`: to shift twice is to shift by the sum, and
  what is shifted is the same program.
-/

namespace ExprLang

variable {n : UInt32}

/-- The second line is `n` lines behind the first. -/
def Later (n : UInt32) (line line' : UInt32) : Prop := line' = line + n

/-- The same token `n` lines later. -/
def Token.shift (n : UInt32) (token : Token) : Token := { token with line := token.line + n }

/-- The same failure, blamed on a line that is `n` lines later. -/
def Failure.shift (n : UInt32) : Failure → Failure
  | .refused d => .refused { d with line := d.line + n }
  | .unreadable text => .unreadable text

theorem Token.shift_shift (m n : UInt32) (token : Token) :
    (token.shift m).shift n = token.shift (m + n) := by
  simp [shift, UInt32.add_assoc]

theorem Token.shift_zero (token : Token) : token.shift 0 = token := by
  simp [shift]

theorem Failure.shift_shift (m n : UInt32) (e : Failure) :
    (e.shift m).shift n = e.shift (m + n) := by
  cases e <;> simp [shift, UInt32.add_assoc]

theorem Token.same_shift (n : UInt32) (token : Token) : token.same (token.shift n) = true :=
  same_iff.mpr ⟨rfl, rfl⟩

theorem Token.alike_later_iff {a b : Token} : a.Alike (Later n) b ↔ b = a.shift n := by
  constructor
  · rintro ⟨hk, hv, hl⟩
    obtain ⟨kind, value, line⟩ := b
    obtain rfl : line = a.line + n := hl
    obtain rfl : a.kind = kind := hk
    obtain rfl : a.value = value := hv
    rfl
  · rintro rfl
    exact ⟨rfl, rfl, rfl⟩

theorem Token.rel_shift (r : Option Token) :
    Option.Rel (Token.Alike (Later n)) r (r.map (Token.shift n)) := by
  cases r with
  | none => exact .none
  | some token => exact .some (alike_later_iff.mpr rfl)

theorem Failure.alike_later_iff {e e' : Failure} : e.Alike (Later n) e' ↔ e' = e.shift n := by
  constructor
  · intro h
    cases h with
    | @refused d d' same =>
      obtain ⟨cause, line⟩ := d'
      obtain rfl : line = d.line + n := same.line
      obtain rfl : d.cause = cause := same.cause
      rfl
    | unreadable => rfl
  · rintro rfl
    cases e with
    | refused d => exact .refused ⟨rfl, rfl⟩
    | unreadable text => exact .unreadable text

namespace Tree

mutual

/-- The same tree `n` lines later. -/
def shift (n : UInt32) : Tree → Tree
  | literal token type => literal (token.shift n) type
  | reference token type assignable => reference (token.shift n) type assignable
  | unary operator type operand => unary (operator.shift n) type (shift n operand)
  | binary operator type left right =>
    binary (operator.shift n) type (shift n left) (shift n right)
  | declaration name type assignable => declaration (name.shift n) type assignable
  | assignment operator type target value =>
    assignment (operator.shift n) type (shift n target) (shift n value)
  | empty => empty
  | block statements => block (shiftAll n statements)

/-- The same trees `n` lines later. -/
def shiftAll (n : UInt32) : List Tree → List Tree
  | [] => []
  | tree :: rest => shift n tree :: shiftAll n rest

end

theorem shiftAll_eq_map (n : UInt32) (trees : List Tree) :
    shiftAll n trees = trees.map (shift n) := by
  induction trees with
  | nil => rfl
  | cons tree rest ih => rw [shiftAll, ih, List.map_cons]

mutual

theorem shift_shift (m n : UInt32) : ∀ tree : Tree, (tree.shift m).shift n = tree.shift (m + n)
  | literal .. | reference .. | declaration .. => by simp [shift, Token.shift_shift]
  | unary _ _ operand => by simp [shift, Token.shift_shift, shift_shift m n operand]
  | binary _ _ left right | assignment _ _ left right => by
    simp [shift, Token.shift_shift, shift_shift m n left, shift_shift m n right]
  | empty => rfl
  | block statements => by simp [shift, shiftAll_shiftAll m n statements]

theorem shiftAll_shiftAll (m n : UInt32) :
    ∀ trees : List Tree, shiftAll n (shiftAll m trees) = shiftAll (m + n) trees
  | [] => rfl
  | tree :: rest => by simp [shiftAll, shift_shift m n tree, shiftAll_shiftAll m n rest]

end

theorem map_shift_map_shift (m n : UInt32) (trees : List Tree) :
    (trees.map (shift m)).map (shift n) = trees.map (shift (m + n)) := by
  rw [← shiftAll_eq_map, ← shiftAll_eq_map, ← shiftAll_eq_map, shiftAll_shiftAll]

mutual

theorem same_shift (n : UInt32) : ∀ tree : Tree, tree.same (tree.shift n) = true
  | literal .. => by simp [shift, same, Token.same_shift, DataType.same_iff]
  | reference .. | declaration .. => by
    simp [shift, same, Token.same_shift, Alike.sameOption_self]
  | unary _ _ operand => by
    simp [shift, same, Token.same_shift, Alike.sameOption_self, same_shift n operand]
  | binary _ _ left right | assignment _ _ left right => by
    simp [shift, same, Token.same_shift, Alike.sameOption_self, same_shift n left,
      same_shift n right]
  | empty => rfl
  | block statements => by simp [shift, same, sameAll_shiftAll n statements]

theorem sameAll_shiftAll (n : UInt32) :
    ∀ trees : List Tree, sameAll trees (shiftAll n trees) = true
  | [] => rfl
  | tree :: rest => by simp [shiftAll, sameAll, same_shift n tree, sameAll_shiftAll n rest]

end

theorem sameAll_map_shift (n : UInt32) (trees : List Tree) :
    sameAll trees (trees.map (shift n)) = true := by
  rw [← shiftAll_eq_map]
  exact sameAll_shiftAll n trees

theorem Alike.eq_shift {x y : Tree} (h : Alike (Later n) x y) : y = x.shift n := by
  induction h with
  | literal token | reference token => rw [shift, Token.alike_later_iff.mp token]
  | unary operator _ ih => rw [shift, Token.alike_later_iff.mp operator, ih]
  | binary operator _ _ ih ih' | assignment operator _ _ ih ih' =>
    rw [shift, Token.alike_later_iff.mp operator, ih, ih']

/-- **Programs that are alike on lines that are `n` lines later** are the same but for that. -/
theorem UnitsAlike.eq_shift {xs ys : List Tree} (h : UnitsAlike (Later n) xs ys) :
    ys = xs.map (shift n) := by
  rw [← shiftAll_eq_map]
  induction h with
  | nil => rfl
  | expression same _ ih => rw [shiftAll, same.eq_shift, ih]
  | bare name _ ih => rw [shiftAll, shift, Token.alike_later_iff.mp name, ih]
  | initialized operator name value _ ih =>
    rw [shiftAll, shift, shift, Token.alike_later_iff.mp operator, Token.alike_later_iff.mp name,
      value.eq_shift, ih]
  | block _ _ ih ih' => rw [shiftAll, shift, ih, ih']

end Tree

end ExprLang
