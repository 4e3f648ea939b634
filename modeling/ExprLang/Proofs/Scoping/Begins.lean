import ExprLang.Proofs.Compose.Rounds
import ExprLang.Proofs.Typing.Sound

/-!
# Where statements and blocks begin

No symbol waits for its type where the rule for statements or that for blocks is entered, however
the parse goes on from there.

* `Scope.Settled`, `Scopes.AllSettled`: every symbol has a type, also one that is shadowed.
* `Forms.allSettled`: so it is behind a passage if it is so before it.
* `Begins`: the states in which the two rules are entered while a source is parsed.
* **`Begins.allSettled`**: every symbol of every scope has a type there.
-/

namespace ExprLang

/-! ## Scopes without open types -/

/-- Every symbol of the scope has a type. -/
def Scope.Settled (scope : Scope) : Prop :=
  ∀ id symbol, scope.get? id = some symbol → symbol.type.isSome = true

/-- Every symbol of every scope of the chain has a type. -/
def Scopes.AllSettled (scopes : Scopes) : Prop :=
  ∀ scope ∈ scopes.current :: scopes.enclosing, Scope.Settled scope

namespace Scopes.AllSettled

variable {scopes inner : Scopes} {symbol : Symbol}

theorem root : AllSettled .root := List.forall_mem_singleton.mpr nofun

theorem push (h : scopes.AllSettled) : scopes.push.AllSettled :=
  List.forall_mem_cons.mpr ⟨nofun, h⟩

theorem declare (h : scopes.AllSettled) (hd : scopes.declare? symbol = some inner)
    (ht : symbol.type.isSome = true) : inner.AllSettled := by
  obtain ⟨hcurrent, henclosing⟩ := List.forall_mem_cons.mp h
  unfold declare? at hd
  split at hd
  · cases hd
  · cases hd
    refine List.forall_mem_cons.mpr ⟨fun id found hl => ?_, henclosing⟩
    rw [Table.get?_insert] at hl
    split at hl
    · cases hl
      exact ht
    · exact hcurrent id found hl

/-- The symbol that a declaration adds may wait for its type, which it gets then. -/
theorem resolve (h : scopes.AllSettled) (hd : scopes.declare? symbol = some inner)
    (type : DataType) : (inner.resolve symbol.id type).AllSettled := by
  obtain ⟨hcurrent, henclosing⟩ := List.forall_mem_cons.mp h
  unfold declare? at hd
  split at hd
  · cases hd
  · cases hd
    refine List.forall_mem_cons.mpr ⟨fun id found hl => ?_, henclosing⟩
    simp only [Scopes.resolve, Table.get?_modify, Table.get?_insert] at hl
    by_cases hid : symbol.id = id
    · rw [if_pos hid] at hl
      cases hl
      rfl
    · rw [if_neg hid, if_neg hid] at hl
      exact hcurrent id found hl

theorem settled_lookupIn {scopes : List Scope} (h : ∀ scope ∈ scopes, Scope.Settled scope)
    {id : String} {symbol : Symbol} (hl : lookupIn id scopes = some symbol) :
    symbol.type.isSome = true := by
  induction scopes with
  | nil => cases hl
  | cons scope rest ih =>
    obtain ⟨hscope, hrest⟩ := List.forall_mem_cons.mp h
    rw [lookupIn] at hl
    rcases Option.or_eq_some_iff.mp hl with hl | ⟨-, hl⟩
    · exact hscope id symbol hl
    · exact ih hrest hl

theorem settled (h : scopes.AllSettled) : ExprLang.Settled scopes :=
  fun _ _ hl => settled_lookupIn h hl

end Scopes.AllSettled

/-- The state behind the opening brace of a block, one level down and in a scope of its own. -/
def ParseState.inside (s : ParseState) (opening : Token) : ParseState :=
  { (s.note (.entering opening.line)).atDepth (s.depth + 1) with scopes := s.scopes.push }

namespace Grammar

variable {g : Grammar} {source : Source} {s t : ParseState} {room : Nat}

theorem Forms.allSettled {passage : Passage} {before behind : Scopes} {tokens : List Token}
    {trees : List Tree} (h : Forms g passage room before tokens trees behind)
    (hs : before.AllSettled) : behind.AllSettled := by
  induction h with
  | semicolon | expression | block | nil => exact hs
  | bare _ _ _ fresh => exact hs.declare fresh rfl
  | initialized _ _ _ fresh => exact hs.resolve fresh _
  | cons _ _ _ ih ih' => exact ih' (ih hs)

theorem PassageRun.allSettled {passage : Passage} {kept : Option Tree → Option Tree}
    {r : Option Tree} (h : PassageRun g passage room s t kept r) (hs : s.scopes.AllSettled) :
    t.scopes.AllSettled := by
  rcases h with ⟨_, -, _, -, -, hf⟩ | ⟨-, ht⟩
  · exact hf.allSettled hs
  · exact ht.scopes ▸ hs

theorem Rounds.allSettled {units : List (Option Tree)} (h : Rounds g s units t)
    (hs : s.scopes.AllSettled) : t.scopes.AllSettled := by
  induction h with
  | refl => exact hs
  | round first _ ih =>
    obtain ⟨_, -, hf⟩ := forms_of_programStep first
    exact ih (hf.allSettled hs)

theorem bodyRuns (g : Grammar) (room : Nat) :
    BodyRuns g room (g.statementPart room) (g.blockPart room) :=
  ⟨fun _ _ _ => forms_of_statementIn, fun _ _ => room_pos_of_statementIn,
    fun _ _ _ => forms_of_blockIn⟩

/-! ## Entering rules -/

/-- A rule that is entered while a program is read. -/
inductive Entry where
  /-- The rule for statements, at the beginning of a unit. -/
  | unit
  /-- The rule for statements, inside of a block. -/
  | statement
  /-- The rule for blocks. -/
  | block
  deriving DecidableEq

/-- `Begins g source entry room s`: while the source is parsed, the rule is entered in `s`, with
room for so many levels. What comes before has succeeded; the rule itself may fail. -/
inductive Begins (g : Grammar) (source : Source) : Entry → Nat → ParseState → Prop
  | unit {units : List (Option Tree)} {kind : Kind} {s t : ParseState}
      (rounds : Rounds g (g.start source) units s) (look : g.currentKind s = .ok kind t)
      (more : kind ≠ .eof) : Begins g source .unit g.maxDepth (t.atDepth 0)
  /-- A unit that is no statement may be a block. -/
  | instead {room : Nat} {s t : ParseState} (unit : Begins g source .unit room s)
      (run : g.statementIn room s = .ok none t) : Begins g source .block room t
  /-- Inside of a block there may be a statement. -/
  | inside {room : Nat} {s t : ParseState} {opening : Token}
      (block : Begins g source .block (room + 1) s)
      (run : g.accept .openCurly s = .ok (some opening) t) :
      Begins g source .statement room (t.inside opening)
  /-- Behind it, and where there is none, there may be a block. -/
  | behind {room : Nat} {s t : ParseState} {r : Option Tree}
      (statement : Begins g source .statement room s) (run : g.statementIn room s = .ok r t) :
      Begins g source .block room t
  /-- Behind either of them there may be a statement again. -/
  | again {room : Nat} {s t : ParseState} {trees : List Tree}
      (statement : Begins g source .statement room s)
      (run : bodyStep (g.statementPart room) (g.blockPart room) s = .ok (some trees) t) :
      Begins g source .statement room t

/-- **Where a statement or a block begins every symbol has a type**, in all scopes around it. -/
theorem Begins.allSettled {entry : Entry} (h : Begins g source entry room s) :
    s.scopes.AllSettled := by
  induction h with
  | unit rounds look =>
    obtain ⟨_, -, ht, -⟩ := advance_of_currentKind look
    exact ht.scopes ▸ rounds.allSettled .root
  | instead _ run ih => exact (forms_of_statementIn run).allSettled ih
  | inside _ run ih =>
    rcases advance_of_accept run with ⟨_, -, -, ht⟩ | ⟨hr, -⟩
    · exact (ht.scopes ▸ ih).push
    · cases hr
  | behind _ run ih => exact (forms_of_statementIn run).allSettled ih
  | again _ run ih =>
    obtain ⟨_, -, -, hf⟩ := (bodyRuns g _).step run (.nil (.refl _))
    exact hf.allSettled ih

end Grammar

end ExprLang
