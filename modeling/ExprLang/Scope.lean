import ExprLang.DataType
import ExprLang.Diagnostic
import ExprLang.Table

/-!
# Scopes

A chain of scopes holds what is declared at a point of a program: the scope of the innermost block,
the scopes around it, and last the global one. A name means its innermost declaration
(`Scopes.lookup`), while declaring and resolving concern the innermost scope alone.

* `lookup_declare`: a declaration is seen at once, and nothing else changes.
* `lookup_resolve`: resolving changes the type of a symbol of the innermost scope only.
* `pop_push`: a block that is left takes its declarations along.
-/

namespace ExprLang

/-- A declared name. Its type may still be open while its initializer is read. -/
structure Symbol where
  id : String
  assignable : Bool
  type : Option DataType
  deriving DecidableEq

/-- The symbols declared directly in one block or globally. -/
abbrev Scope := Table String Symbol

/-- The scope of the innermost block and the scopes around it, the nearest first. -/
structure Scopes where
  current : Scope
  enclosing : List Scope

namespace Scopes

/-- A single scope without symbols. -/
def root : Scopes := ⟨.empty, []⟩

/-- Opens a scope inside the innermost. -/
def push (s : Scopes) : Scopes := ⟨.empty, s.current :: s.enclosing⟩

/-- Closes the innermost scope. The last one stays. -/
def pop (s : Scopes) : Scopes :=
  match s.enclosing with
  | [] => s
  | outer :: rest => ⟨outer, rest⟩

/-- The symbol that a chain of scopes, the innermost first, gives a name. -/
def lookupIn (id : String) : List Scope → Option Symbol
  | [] => none
  | scope :: rest => (scope.get? id).or (lookupIn id rest)

/-- The innermost symbol of a name. -/
def lookup (s : Scopes) (id : String) : Option Symbol := lookupIn id (s.current :: s.enclosing)

/-- The symbol of a name in the innermost scope. -/
def lookupLocal (s : Scopes) (id : String) : Option Symbol := s.current.get? id

/-- Declares a symbol in the innermost scope, unless that has one of the same name. -/
def declare? (s : Scopes) (symbol : Symbol) : Option Scopes :=
  if s.current.contains symbol.id then none
  else some { s with current := s.current.insert symbol.id symbol }

/-- Gives a symbol of the innermost scope its type. -/
def resolve (s : Scopes) (id : String) (type : DataType) : Scopes :=
  { s with current := s.current.modify id fun symbol => { symbol with type := some type } }

/-- Declares a symbol, or says why it is refused. -/
def declare (s : Scopes) (symbol : Symbol) (line : UInt32) : Except Diagnostic Scopes :=
  match s.declare? symbol with
  | some s' => .ok s'
  | none => .error ⟨.alreadyDeclared symbol.id, line⟩

/-! ## Lookups -/

theorem lookup_eq (s : Scopes) (id : String) :
    s.lookup id = (s.current.get? id).or (lookupIn id s.enclosing) := rfl

theorem declare?_eq_none_iff {s : Scopes} {symbol : Symbol} :
    s.declare? symbol = none ↔ (s.lookupLocal symbol.id).isSome = true := by
  cases h : s.current.get? symbol.id <;> simp [declare?, lookupLocal, Table.contains, h]

theorem lookup_declare {s t : Scopes} {symbol : Symbol} (h : s.declare? symbol = some t)
    (id : String) : t.lookup id = if symbol.id = id then some symbol else s.lookup id := by
  unfold declare? at h
  split at h
  · cases h
  · cases h
    rw [lookup_eq, lookup_eq, Table.get?_insert]
    split <;> simp

theorem lookup_resolve (s : Scopes) (id j : String) (type : DataType) :
    (s.resolve id type).lookup j =
      if id = j ∧ (s.lookupLocal id).isSome = true then
        (s.lookup j).map fun symbol => { symbol with type := some type }
      else s.lookup j := by
  rw [lookup_eq, lookup_eq, resolve, Table.get?_modify, lookupLocal]
  by_cases h : id = j
  · subst h
    cases s.current.get? id <;> simp
  · simp [h]

theorem pop_push (s : Scopes) : s.push.pop = s := rfl

end Scopes

end ExprLang
