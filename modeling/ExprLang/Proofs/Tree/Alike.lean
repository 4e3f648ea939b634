import Mathlib.Data.List.Forall2
import ExprLang.Proofs.Tree.Height
import ExprLang.Typing.Check

/-!
# Trees that are alike

Two parses of one program on different lines build trees that are alike: they differ in the lines of
their tokens only. Which lines correspond is left open.

* `Token.Alike`, `Diagnostic.Alike`, `Failure.Alike`: the same but for lines that correspond.
* `Tree.Alike`: so for the trees of expressions; `Tree.Alike.check`: and once they have been typed.
* `Tree.UnitsAlike`: so for programs; `Tree.UnitsAlike.same`: such programs count as equal.
-/

namespace ExprLang

variable {lines : UInt32 → UInt32 → Prop}

/-- The same token, on corresponding lines. -/
structure Token.Alike (lines : UInt32 → UInt32 → Prop) (a b : Token) : Prop where
  kind : a.kind = b.kind
  value : a.value = b.value
  line : lines a.line b.line

/-- The same cause, blamed on corresponding lines. -/
structure Diagnostic.Alike (lines : UInt32 → UInt32 → Prop) (d e : Diagnostic) : Prop where
  cause : d.cause = e.cause
  line : lines d.line e.line

/-- The same failure, blamed on corresponding lines if on any. -/
inductive Failure.Alike (lines : UInt32 → UInt32 → Prop) : Failure → Failure → Prop
  | refused {d e : Diagnostic} (same : d.Alike lines e) : Alike lines (.refused d) (.refused e)
  | unreadable (text : String) : Alike lines (.unreadable text) (.unreadable text)

theorem Token.Alike.same {a b : Token} (h : a.Alike lines b) : a.same b = true :=
  Token.same_iff.mpr ⟨h.kind, h.value⟩

/-- The same value, or the same diagnostic on corresponding lines. -/
inductive SameOutcome {α : Type} (lines : UInt32 → UInt32 → Prop) :
    Except Diagnostic α → Except Diagnostic α → Prop
  | ok (a : α) : SameOutcome lines (.ok a) (.ok a)
  | error {d e : Diagnostic} (same : d.Alike lines e) : SameOutcome lines (.error d) (.error e)

theorem SameOutcome.bind {α β : Type} {x y : Except Diagnostic α} {f g : α → Except Diagnostic β}
    (h : SameOutcome lines x y) (hf : ∀ a, SameOutcome lines (f a) (g a)) :
    SameOutcome lines (x >>= f) (y >>= g) := by
  cases h with
  | ok a => exact hf a
  | error same => exact .error same

theorem sameOutcome_unify (declared initializer : Option DataType) {l m : UInt32} (h : lines l m) :
    SameOutcome lines (unify declared initializer l) (unify declared initializer m) := by
  unfold unify
  split
  · exact .error ⟨rfl, h⟩
  · exact .ok _
  · exact .error ⟨rfl, h⟩
  · split
    · exact .ok _
    · exact .error ⟨rfl, h⟩

namespace Tree

/-! ## Expressions -/

/-- The same tree of an expression, on corresponding lines. -/
inductive Alike (lines : UInt32 → UInt32 → Prop) : Tree → Tree → Prop
  | literal {a b : Token} {type : DataType} (token : a.Alike lines b) :
      Alike lines (.literal a type) (.literal b type)
  | reference {a b : Token} {type : Option DataType} {assignable : Bool} (token : a.Alike lines b) :
      Alike lines (.reference a type assignable) (.reference b type assignable)
  | unary {a b : Token} {type : Option DataType} {x y : Tree} (operator : a.Alike lines b)
      (operand : Alike lines x y) : Alike lines (.unary a type x) (.unary b type y)
  | binary {a b : Token} {type : Option DataType} {x x' y y' : Tree} (operator : a.Alike lines b)
      (left : Alike lines x y) (right : Alike lines x' y') :
      Alike lines (.binary a type x x') (.binary b type y y')
  | assignment {a b : Token} {type : Option DataType} {x x' y y' : Tree}
      (operator : a.Alike lines b) (target : Alike lines x y) (value : Alike lines x' y') :
      Alike lines (.assignment a type x x') (.assignment b type y y')

namespace Alike

variable {x y x' y' : Tree}

theorem type?_eq (h : Alike lines x y) : x.type? = y.type? := by cases h <;> rfl

theorem isEmpty_eq (h : Alike lines x y) : x.isEmpty = false ∧ y.isEmpty = false := by
  cases h <;> exact ⟨rfl, rfl⟩

theorem height_eq (h : Alike lines x y) : x.height = y.height := by
  rw [height_eq_rank, height_eq_rank]
  induction h with
  | literal | reference => rfl
  | unary _ _ ih => rw [rank, rank, ih]
  | binary _ _ _ ih ih' | assignment _ _ _ ih ih' => rw [rank, rank, ih, ih']

theorem sameOption_self (type : Option DataType) : DataType.sameOption type type = true := by
  cases type with
  | none => rfl
  | some type => exact DataType.same_iff.mpr rfl

theorem same (h : Alike lines x y) : Tree.same x y = true := by
  induction h with
  | literal token => simp [Tree.same, token.same, DataType.same_iff]
  | reference token => simp [Tree.same, token.same, sameOption_self]
  | unary operator _ ih => simp [Tree.same, operator.same, sameOption_self, ih]
  | binary operator _ _ ih ih' | assignment operator _ _ ih ih' =>
    simp [Tree.same, operator.same, sameOption_self, ih, ih']

/-! ### Type checks -/

theorem operandType (h : Alike lines x y) : SameOutcome lines x.operandType y.operandType := by
  unfold Tree.operandType
  rw [h.type?_eq]
  split
  · exact .ok _
  · cases h with
    | literal token | reference token => exact .error ⟨by rw [token.value], token.line⟩
    | unary operator | binary operator | assignment operator =>
      exact .error ⟨by rw [operator.value], operator.line⟩

theorem unaryType {a b : Token} (operator : a.Alike lines b) (h : Alike lines x y)
    (table : TypingTable) :
    SameOutcome lines (Tree.unaryType table a x) (Tree.unaryType table b y) := by
  refine h.operandType.bind fun type => ?_
  rw [operator.kind, operator.value]
  split
  · exact .ok _
  · exact .error ⟨rfl, operator.line⟩

theorem binaryType {a b : Token} (operator : a.Alike lines b) (h : Alike lines x y)
    (h' : Alike lines x' y') (table : TypingTable) :
    SameOutcome lines (Tree.binaryType table a x x') (Tree.binaryType table b y y') := by
  refine h.operandType.bind fun type => h'.operandType.bind fun type' => ?_
  rw [operator.kind, operator.value]
  split
  · exact .ok _
  · exact .error ⟨rfl, operator.line⟩

end Alike

/-- The same result of a type check, on corresponding lines: both have typed the whole tree, or both
stopped at the same node. -/
inductive CheckedAlike (lines : UInt32 → UInt32 → Prop) : Checked → Checked → Prop
  | done {x y : Tree} (tree : Alike lines x y) : CheckedAlike lines ⟨x, none⟩ ⟨y, none⟩
  | stopped {x y : Tree} {d e : Diagnostic} (tree : Alike lines x y) (same : d.Alike lines e) :
      CheckedAlike lines ⟨x, some d⟩ ⟨y, some e⟩

namespace CheckedAlike

variable {l r l' r' : Checked} {a b : Token}

theorem tree_alike (h : CheckedAlike lines l r) : Alike lines l.tree r.tree := by
  cases h with
  | done tree | stopped tree => exact tree

/-- A node whose type is the same on both sides, or is refused on both. -/
theorem node {r s : Except Diagnostic DataType} (h : SameOutcome lines r s)
    {f k : Option DataType → Tree} (hf : ∀ type, Alike lines (f type) (k type))
    (old : Option DataType) :
    CheckedAlike lines ⟨f (typeAfter old r), faultOf r⟩ ⟨k (typeAfter old s), faultOf s⟩ := by
  cases h with
  | ok type => exact .done (hf _)
  | error same => exact .stopped (hf _) same

/-- The second child is checked unless the first stopped the check. -/
theorem second {x y : Tree} (hl : CheckedAlike lines l l') (hxy : Alike lines x y)
    (hr : CheckedAlike lines r r') :
    CheckedAlike lines (if l.fault.isSome then ⟨x, none⟩ else r)
      (if l'.fault.isSome then ⟨y, none⟩ else r') := by
  cases hl with
  | done => exact hr
  | stopped => exact .done hxy

theorem unaryType (operator : a.Alike lines b) (h : CheckedAlike lines l r) (table : TypingTable) :
    SameOutcome lines
      (match l.fault with
        | some d => .error d
        | none => Tree.unaryType table a l.tree)
      (match r.fault with
        | some d => .error d
        | none => Tree.unaryType table b r.tree) := by
  cases h with
  | done tree => exact tree.unaryType operator table
  | stopped _ same => exact .error same

theorem pairType (operator : a.Alike lines b) (hl : CheckedAlike lines l l')
    (hr : CheckedAlike lines r r') (table : TypingTable) :
    SameOutcome lines (Tree.pairType table a l r) (Tree.pairType table b l' r') := by
  cases hl with
  | done left =>
    cases hr with
    | done right => exact left.binaryType operator right table
    | stopped _ same => exact .error same
  | stopped _ same => exact .error same

end CheckedAlike

/-- **The types of trees that are alike are the same**, and so is what has none. -/
theorem Alike.check {x y : Tree} (h : Alike lines x y) (table : TypingTable) :
    CheckedAlike lines (x.check table) (y.check table) := by
  induction h with
  | literal token => exact .done (.literal token)
  | reference token => exact .done (.reference token)
  | unary operator _ ih =>
    rw [Tree.check, Tree.check]
    exact .node (f := (.unary _ · _)) (k := (.unary _ · _)) (ih.unaryType operator table)
      (fun _ => .unary operator ih.tree_alike) _
  | binary operator _ right ih ih' =>
    rw [Tree.check, Tree.check]
    have ih' := ih.second right ih'
    exact .node (f := (.binary _ · _ _)) (k := (.binary _ · _ _))
      (ih.pairType operator ih' table) (fun _ => .binary operator ih.tree_alike ih'.tree_alike) _
  | assignment operator _ value ih ih' =>
    rw [Tree.check, Tree.check]
    have ih' := ih.second value ih'
    exact .node (f := (.assignment _ · _ _)) (k := (.assignment _ · _ _))
      (ih.pairType operator ih' table)
      (fun _ => .assignment operator ih.tree_alike ih'.tree_alike) _

/-! ## Programs -/

/-- The same units, on corresponding lines. -/
inductive UnitsAlike (lines : UInt32 → UInt32 → Prop) : List Tree → List Tree → Prop
  | nil : UnitsAlike lines [] []
  | expression {x y : Tree} {xs ys : List Tree} (same : Alike lines x y)
      (rest : UnitsAlike lines xs ys) : UnitsAlike lines (x :: xs) (y :: ys)
  | bare {a b : Token} {type : Option DataType} {assignable : Bool} {xs ys : List Tree}
      (name : a.Alike lines b) (rest : UnitsAlike lines xs ys) :
      UnitsAlike lines (.declaration a type assignable :: xs) (.declaration b type assignable :: ys)
  | initialized {a b c d : Token} {type type' : Option DataType} {assignable : Bool} {x y : Tree}
      {xs ys : List Tree} (operator : a.Alike lines b) (name : c.Alike lines d)
      (value : Alike lines x y) (rest : UnitsAlike lines xs ys) :
      UnitsAlike lines (.assignment a type (.declaration c type' assignable) x :: xs)
        (.assignment b type (.declaration d type' assignable) y :: ys)
  | block {bs cs xs ys : List Tree} (inside : UnitsAlike lines bs cs)
      (rest : UnitsAlike lines xs ys) : UnitsAlike lines (.block bs :: xs) (.block cs :: ys)

/-- Both trees are semicolons alone, or they are related. -/
inductive OrEmpty (R : Tree → Tree → Prop) : Tree → Tree → Prop
  | empty : OrEmpty R .empty .empty
  | tree {x y : Tree} (h : R x y) : OrEmpty R x y

/-- The same block, on corresponding lines. -/
inductive BlockAlike (lines : UInt32 → UInt32 → Prop) : Tree → Tree → Prop
  | block {xs ys : List Tree} (inside : UnitsAlike lines xs ys) :
      BlockAlike lines (.block xs) (.block ys)

namespace UnitsAlike

variable {xs ys xs' ys' : List Tree}

theorem append (h : UnitsAlike lines xs ys) (h' : UnitsAlike lines xs' ys') :
    UnitsAlike lines (xs ++ xs') (ys ++ ys') := by
  induction h with
  | nil => exact h'
  | expression same _ ih => exact .expression same ih
  | bare name _ ih => exact .bare name ih
  | initialized operator name value _ ih => exact .initialized operator name value ih
  | block inside _ _ ih => exact .block inside ih

theorem isEmpty_eq (h : UnitsAlike lines xs ys) : xs.isEmpty = ys.isEmpty := by
  cases h <;> rfl

theorem isEmpty_head {x y : Tree} (h : UnitsAlike lines (x :: xs) (y :: ys)) :
    x.isEmpty = false ∧ y.isEmpty = false := by
  cases h with
  | expression same => exact same.isEmpty_eq
  | bare | initialized | block => exact ⟨rfl, rfl⟩

theorem flatten {xss yss : List (List Tree)} (h : List.Forall₂ (UnitsAlike lines) xss yss) :
    UnitsAlike lines xss.flatten yss.flatten := by
  induction h with
  | nil => exact .nil
  | cons head _ ih => exact head.append ih

theorem filterMap {rs rs' : List (Option Tree)}
    (h : List.Forall₂ (fun r r' => UnitsAlike lines r.toList r'.toList) rs rs') :
    UnitsAlike lines (rs.filterMap id) (rs'.filterMap id) := by
  rw [List.filterMap_eq_flatMap_toList, List.filterMap_eq_flatMap_toList]
  refine flatten (List.forall₂_map_left_iff.mpr (List.forall₂_map_right_iff.mpr h))

theorem same (h : UnitsAlike lines xs ys) : sameAll xs ys = true := by
  induction h with
  | nil => rfl
  | expression same _ ih => simp [sameAll, same.same, ih]
  | bare name _ ih => simp [sameAll, Tree.same, name.same, Alike.sameOption_self, ih]
  | initialized operator name value _ ih =>
    simp [sameAll, Tree.same, operator.same, name.same, value.same, Alike.sameOption_self, ih]
  | block _ _ ih ih' => simp [sameAll, Tree.same, ih, ih']

end UnitsAlike

end Tree

end ExprLang
