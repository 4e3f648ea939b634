import Mathlib.Data.List.Forall2
import ExprLang.Proofs.Scoping.View
import ExprLang.Proofs.Stream.Attempts

/-!
# Histories of scopes

What a chain of scopes answers is told by the operations performed on it alone. Every open scope has
a log of what was done while it was the innermost; the first operation in it that declares a name
gives the name its symbol, and the last one behind that which resolves it gives the symbol its type.

* `Op`, `Op.perform`: the operations, in any order.
* `Logs`: the operations performed in each open scope.
* `Gives`, `Denotes`: what a name means in one scope, and in a chain.
* `Tells.step`, `tells_attempts`: the scopes keep what their logs tell, after any operations.
* `Balanced.enclosing`: operations that close what they open leave the scopes around alone.
* **`lexical_environment`**: what an operation does after any history.
-/

namespace ExprLang.Scopes

/-! ## Operations -/

/-- An operation on a chain of scopes. -/
inductive Op where
  | push
  | pop
  | declare (symbol : Symbol) (line : UInt32)
  | resolve (id : String) (type : DataType)
  | lookup (id : String)
  | lookupLocal (id : String)

/-- What an operation answers: what it has found, or that it is done. -/
inductive Answer where
  | found (symbol : Option Symbol)
  | done
  deriving DecidableEq

/-- Performs an operation. -/
def Op.perform : Op → EStateM Diagnostic Scopes Answer
  | push => do
    modify Scopes.push
    return .done
  | pop => do
    modify Scopes.pop
    return .done
  | declare symbol line => do
    match (← get).declare symbol line with
    | .ok scopes =>
      set scopes
      return .done
    | .error d => throw d
  | resolve id type => do
    modify (·.resolve id type)
    return .done
  | lookup id => return .found ((← get).lookup id)
  | lookupLocal id => return .found ((← get).lookupLocal id)

variable {s : Scopes} {symbol : Symbol} {id : String}

theorem attempt_declare (symbol : Symbol) (line : UInt32) (s : Scopes) :
    attempt (Op.declare symbol line).perform s =
      match s.declare? symbol with
      | some t => (.ok .done, t)
      | none => (.error ⟨.alreadyDeclared symbol.id, line⟩, s) := by
  have hget : attempt (Op.declare symbol line).perform s =
      attempt (match s.declare symbol line with
        | .ok scopes => do
          set scopes
          return .done
        | .error d => throw d) s := attempt_bind get _ s
  rw [hget, declare]
  cases s.declare? symbol <;> rfl

theorem attempt_resolve (id : String) (type : DataType) (s : Scopes) :
    attempt (Op.resolve id type).perform s = (.ok .done, s.resolve id type) := rfl

theorem attempt_lookup (id : String) (s : Scopes) :
    attempt (Op.lookup id).perform s = (.ok (.found (s.lookup id)), s) := rfl

theorem attempt_lookupLocal (id : String) (s : Scopes) :
    attempt (Op.lookupLocal id).perform s = (.ok (.found (s.lookupLocal id)), s) := rfl

/-! ## Logs -/

/-- The operations performed in each open scope while it was the innermost, in order. -/
structure Logs where
  current : List Op
  enclosing : List (List Op)

namespace Logs

/-- Of a single scope in which nothing was done. -/
def root : Logs := ⟨[], []⟩

/-- The logs behind another operation. A scope that is closed takes its log along; the last one
stays. -/
def add (logs : Logs) : Op → Logs
  | .push => ⟨[], logs.current :: logs.enclosing⟩
  | .pop =>
    match logs.enclosing with
    | [] => logs
    | outer :: rest => ⟨outer, rest⟩
  | op => { logs with current := logs.current ++ [op] }

/-- The logs behind operations that start from a single scope. -/
def ofHistory (ops : List Op) : Logs := ops.foldl add root

/-- The logs of all open scopes, that of the innermost first. -/
def chain (logs : Logs) : List (List Op) := logs.current :: logs.enclosing

end Logs

/-! ## What a log tells -/

/-- The symbol that an operation declares under a name. -/
def Op.declares? (id : String) : Op → Option Symbol
  | declare symbol _ => if symbol.id = id then some symbol else none
  | _ => none

/-- The type that an operation resolves a name to. -/
def Op.resolves? (id : String) : Op → Option DataType
  | resolve name type => if name = id then some type else none
  | _ => none

/-- The last type that one of the operations resolves a name to. -/
def lastType? (id : String) (log : List Op) : Option DataType :=
  (log.filterMap (Op.resolves? id)).getLast?

/-- One of the operations declares the name. The first that does is not refused. -/
def Declares (id : String) (log : List Op) : Prop :=
  ∃ symbol line, .declare symbol line ∈ log ∧ symbol.id = id

/-- The symbol that the operations of a log give a name: the first that declares the name tells the
symbol, and the last behind it that resolves the name tells the type, unless there is none. -/
def Gives (id : String) (log : List Op) (symbol : Symbol) : Prop :=
  ∃ before declared line after, log = before ++ .declare declared line :: after ∧
    declared.id = id ∧ ¬Declares id before ∧
    symbol = { declared with type := (lastType? id after).or declared.type }

/-- The symbol that a name means in a chain of logs: the innermost of those that declare the name
gives it. -/
def Denotes (id : String) (chain : List (List Op)) (symbol : Symbol) : Prop :=
  ∃ inner log outer, chain = inner ++ log :: outer ∧ Gives id log symbol ∧
    ∀ other ∈ inner, ¬Declares id other

/-- The symbol that a log gives a name, if it gives one. -/
def symbolIn (id : String) : List Op → Option Symbol
  | [] => none
  | op :: later =>
    match op.declares? id with
    | some symbol => some { symbol with type := (lastType? id later).or symbol.type }
    | none => symbolIn id later

theorem declares?_eq_some_iff {op : Op} :
    op.declares? id = some symbol ↔ symbol.id = id ∧ ∃ line, op = .declare symbol line := by
  cases op with
  | declare declared line =>
    rw [Op.declares?, Option.ite_none_right_eq_some]
    constructor
    · rintro ⟨hid, h⟩
      cases h
      exact ⟨hid, line, rfl⟩
    · rintro ⟨hid, _, h⟩
      cases h
      exact ⟨hid, rfl⟩
  | _ => simp [Op.declares?]

theorem declares_cons_iff {op : Op} {log : List Op} :
    Declares id (op :: log) ↔ (∃ symbol, op.declares? id = some symbol) ∨ Declares id log := by
  constructor
  · rintro ⟨symbol, line, hmem, hid⟩
    rcases List.mem_cons.mp hmem with rfl | hmem
    · exact .inl ⟨symbol, declares?_eq_some_iff.mpr ⟨hid, line, rfl⟩⟩
    · exact .inr ⟨symbol, line, hmem, hid⟩
  · rintro (⟨symbol, h⟩ | ⟨symbol, line, hmem, hid⟩)
    · obtain ⟨hid, line, rfl⟩ := declares?_eq_some_iff.mp h
      exact ⟨symbol, line, List.mem_cons_self, hid⟩
    · exact ⟨symbol, line, List.mem_cons_of_mem _ hmem, hid⟩

/-- The operations behind one that declares the name tell nothing but its type. -/
theorem gives_cons_of_some {op : Op} {log : List Op} {declared : Symbol}
    (h : op.declares? id = some declared) :
    Gives id (op :: log) symbol ↔
      symbol = { declared with type := (lastType? id log).or declared.type } := by
  obtain ⟨hid, line, rfl⟩ := declares?_eq_some_iff.mp h
  constructor
  · rintro ⟨_ | ⟨_, before⟩, _, _, after, hlog, -, hbefore, hsymbol⟩
    · cases hlog
      exact hsymbol
    · cases hlog
      exact absurd (declares_cons_iff.mpr (.inl ⟨_, h⟩)) hbefore
  · intro hsymbol
    exact ⟨[], declared, line, log, rfl, hid, by simp [Declares], hsymbol⟩

/-- An operation in front of the first that declares the name tells nothing. -/
theorem gives_cons_of_none {op : Op} {log : List Op} (h : op.declares? id = none) :
    Gives id (op :: log) symbol ↔ Gives id log symbol := by
  have hdeclares : ∀ before, Declares id (op :: before) ↔ Declares id before := by
    intro before
    rw [declares_cons_iff, h]
    simp
  constructor
  · rintro ⟨_ | ⟨_, before⟩, declared, line, after, hlog, hid, hbefore, hsymbol⟩
    · cases hlog
      exact nomatch h.symm.trans (declares?_eq_some_iff.mpr ⟨hid, line, rfl⟩)
    · cases hlog
      exact ⟨before, declared, line, after, rfl, hid, mt (hdeclares _).mpr hbefore, hsymbol⟩
  · rintro ⟨before, declared, line, after, rfl, hid, hbefore, hsymbol⟩
    exact ⟨op :: before, declared, line, after, rfl, hid, mt (hdeclares _).mp hbefore, hsymbol⟩

theorem symbolIn_eq_none_iff {log : List Op} : symbolIn id log = none ↔ ¬Declares id log := by
  induction log with
  | nil => simp [symbolIn, Declares]
  | cons op later ih =>
    rw [symbolIn, declares_cons_iff]
    rcases op.declares? id with _ | declared
    · simpa using ih
    · simp

theorem symbolIn_eq_some_iff {log : List Op} :
    symbolIn id log = some symbol ↔ Gives id log symbol := by
  induction log with
  | nil => simp [symbolIn, Gives]
  | cons op later ih =>
    rw [symbolIn]
    rcases h : op.declares? id with _ | declared
    · rw [gives_cons_of_none h, ← ih]
    · rw [gives_cons_of_some h, Option.some_inj, eq_comm]

theorem denotes_iff {chain : List (List Op)} :
    chain.findSome? (symbolIn id) = some symbol ↔ Denotes id chain symbol := by
  simp only [List.findSome?_eq_some_iff, symbolIn_eq_none_iff, symbolIn_eq_some_iff, Denotes]

/-- Another operation declares the name if none has, and otherwise may resolve it. -/
theorem symbolIn_concat (id : String) (log : List Op) (op : Op) :
    symbolIn id (log ++ [op]) =
      match symbolIn id log with
      | some symbol => some { symbol with type := (op.resolves? id).or symbol.type }
      | none => op.declares? id := by
  induction log with
  | nil =>
    rw [List.nil_append, symbolIn, symbolIn]
    cases op.declares? id <;> rfl
  | cons first later ih =>
    rw [List.cons_append, symbolIn, symbolIn]
    rcases first.declares? id with _ | declared
    · exact ih
    · have hlast : lastType? id (later ++ [op]) = (op.resolves? id).or (lastType? id later) := by
        rw [lastType?, List.filterMap_append, List.getLast?_append]
        cases h : op.resolves? id <;> simp [h, lastType?]
      simp only [hlast, Option.or_assoc]

/-! ## Scopes and their logs -/

/-- The scope keeps the symbols that the log gives. -/
def Told (scope : Scope) (log : List Op) : Prop := ∀ id, scope.get? id = symbolIn id log

/-- Every scope of the chain keeps the symbols that its log gives. -/
structure Tells (s : Scopes) (logs : Logs) : Prop where
  current : Told s.current logs.current
  enclosing : List.Forall₂ Told s.enclosing logs.enclosing

theorem Told.idle {scope : Scope} {log : List Op} (h : Told scope log) {op : Op}
    (hdeclares : ∀ id, op.declares? id = none) (hresolves : ∀ id, op.resolves? id = none) :
    Told scope (log ++ [op]) := by
  intro id
  rw [symbolIn_concat, h id, hdeclares, hresolves]
  cases symbolIn id log <;> rfl

/-- What is declared is found, whatever it is resolved to later, unless the scope has a symbol of
that name. -/
theorem Told.declare {scope : Scope} {log : List Op} (h : Told scope log)
    (hnone : scope.get? symbol.id = none) (line : UInt32) :
    Told (scope.insert symbol.id symbol) (log ++ [.declare symbol line]) := by
  intro id
  rw [symbolIn_concat, Table.get?_insert, h id]
  by_cases hid : symbol.id = id
  · subst hid
    rw [← h, hnone, if_pos rfl, Op.declares?, if_pos rfl]
  · rw [if_neg hid, Op.declares?, if_neg hid]
    cases symbolIn id log <;> rfl

theorem Told.refused {scope : Scope} {log : List Op} (h : Told scope log)
    (hsome : scope.get? symbol.id ≠ none) (line : UInt32) :
    Told scope (log ++ [.declare symbol line]) := by
  intro id
  rw [symbolIn_concat, h id]
  rcases hgives : symbolIn id log with _ | found
  · have hid : ¬symbol.id = id := fun hid => hsome (hid ▸ (h id).trans hgives)
    rw [Op.declares?, if_neg hid]
  · rfl

theorem Told.resolve {scope : Scope} {log : List Op} (h : Told scope log) (name : String)
    (type : DataType) :
    Told (scope.modify name fun symbol => { symbol with type := some type })
      (log ++ [.resolve name type]) := by
  intro id
  rw [symbolIn_concat, Table.get?_modify, Op.resolves?, h id, h name]
  by_cases hname : name = id
  · subst hname
    rw [if_pos rfl, if_pos rfl]
    cases symbolIn name log <;> rfl
  · rw [if_neg hname, if_neg hname]
    cases symbolIn id log <;> rfl

/-- **Every operation keeps to the logs**: it does to the scopes what they tell behind it. -/
theorem Tells.step {logs : Logs} (h : Tells s logs) (op : Op) :
    Tells (attempt op.perform s).2 (logs.add op) := by
  cases op with
  | push => exact ⟨fun _ => rfl, .cons h.current h.enclosing⟩
  | pop =>
    obtain ⟨current, enclosing⟩ := s
    obtain ⟨log, outside⟩ := logs
    cases h.enclosing with
    | nil => exact h
    | cons houter hrest => exact ⟨houter, hrest⟩
  | declare symbol line =>
    rw [attempt_declare, declare?]
    rcases hfound : s.current.get? symbol.id with _ | found
    · rw [if_neg (by simp [Table.contains, hfound])]
      exact ⟨h.current.declare hfound line, h.enclosing⟩
    · rw [if_pos (by simp [Table.contains, hfound])]
      exact ⟨h.current.refused (by simp [hfound]) line, h.enclosing⟩
  | resolve name type => exact ⟨h.current.resolve name type, h.enclosing⟩
  | lookup | lookupLocal => exact ⟨h.current.idle (fun _ => rfl) fun _ => rfl, h.enclosing⟩

theorem tells_attempts {logs : Logs} (h : Tells s logs) (ops : List Op) :
    Tells (attempts Op.perform ops s).2 (ops.foldl Logs.add logs) := by
  induction ops generalizing s logs with
  | nil => exact h
  | cons op ops ih => exact ih (h.step op)

theorem tells_ofHistory (ops : List Op) :
    Tells (attempts Op.perform ops .root).2 (.ofHistory ops) :=
  tells_attempts ⟨fun _ => rfl, .nil⟩ ops

theorem Tells.lookupLocal {logs : Logs} (h : Tells s logs) :
    s.lookupLocal id = some symbol ↔ Gives id logs.current symbol := by
  rw [Scopes.lookupLocal, h.current id, symbolIn_eq_some_iff]

theorem Tells.lookupLocal_eq_none {logs : Logs} (h : Tells s logs) :
    s.lookupLocal id = none ↔ ¬Declares id logs.current := by
  rw [Scopes.lookupLocal, h.current id, symbolIn_eq_none_iff]

theorem Tells.declare?_eq_none {logs : Logs} (h : Tells s logs) :
    s.declare? symbol = none ↔ Declares symbol.id logs.current := by
  rw [declare?_eq_none_iff, Option.isSome_iff_ne_none, ne_eq, h.lookupLocal_eq_none, not_not]

theorem Tells.resolve_eq {logs : Logs} (h : Tells s logs) (hnone : ¬Declares id logs.current)
    (type : DataType) : s.resolve id type = s := by
  have hlocal : s.current.get? id = none := h.lookupLocal_eq_none.mpr hnone
  rw [resolve, Table.modify, hlocal]

/-- **A name means what the innermost log that declares it gives.** -/
theorem Tells.lookup {logs : Logs} (h : Tells s logs) :
    s.lookup id = some symbol ↔ Denotes id logs.chain symbol := by
  have hchain : s.lookup id = logs.chain.findSome? (symbolIn id) :=
    lookupIn_of_forall₂ (.cons (h.current id) (h.enclosing.imp fun _ _ hscope => hscope id))
  rw [hchain, denotes_iff]

/-! ## Blocks -/

/-- Operations that close every scope they open and no other. -/
inductive Balanced : List Op → Prop
  | nil : Balanced []
  | step {op : Op} {ops : List Op} (here : op ≠ .push ∧ op ≠ .pop) (rest : Balanced ops) :
      Balanced (op :: ops)
  | block {inside ops : List Op} (inner : Balanced inside) (rest : Balanced ops) :
      Balanced (.push :: inside ++ [.pop] ++ ops)

/-- An operation that neither opens nor closes a scope concerns the innermost alone. -/
theorem enclosing_attempt {op : Op} (h : op ≠ .push ∧ op ≠ .pop) (s : Scopes) :
    (attempt op.perform s).2.enclosing = s.enclosing := by
  cases op with
  | push => exact absurd rfl h.1
  | pop => exact absurd rfl h.2
  | declare symbol line =>
    rw [attempt_declare, declare?]
    cases s.current.contains symbol.id <;> rfl
  | resolve | lookup | lookupLocal => rfl

/-- Closing the scope that was opened brings back the scopes in front of it. -/
theorem attempts_block {inside : List Op}
    (h : ∀ s, (attempts Op.perform inside s).2.enclosing = s.enclosing) (s : Scopes) :
    (attempts Op.perform (.push :: inside ++ [.pop]) s).2 = s := by
  rw [List.cons_append, attempts, attempts_append]
  have hinside : (attempts Op.perform inside s.push).2.enclosing = s.current :: s.enclosing :=
    h s.push
  change (attempts Op.perform inside s.push).2.pop = s
  rw [pop, hinside]

/-- **What is balanced leaves the scopes around alone.** -/
theorem Balanced.enclosing {ops : List Op} (h : Balanced ops) (s : Scopes) :
    (attempts Op.perform ops s).2.enclosing = s.enclosing := by
  induction h generalizing s with
  | nil => rfl
  | step here _ ih => exact (ih _).trans (enclosing_attempt here s)
  | @block inside ops _ _ ih ih' =>
    rw [attempts_append, attempts_block ih]
    exact ih' s

/-! ## Any history -/

/-- **A chain of scopes is a lexical environment**, whatever was done with it: a name means what the
innermost scope that declares it tells, and a scope that was closed leaves no trace. -/
theorem lexical_environment (history : List Op) :
    let scopes := (attempts Op.perform history .root).2
    let logs := Logs.ofHistory history
    (∀ symbol line,
      ((attempt (Op.declare symbol line).perform scopes).1 = .ok .done ↔
        ¬Declares symbol.id logs.current) ∧
      (Declares symbol.id logs.current →
        attempt (Op.declare symbol line).perform scopes =
          (.error ⟨.alreadyDeclared symbol.id, line⟩, scopes))) ∧
    (∀ id, ∃ found, attempt (Op.lookup id).perform scopes = (.ok (.found found), scopes) ∧
      ∀ symbol, found = some symbol ↔ Denotes id logs.chain symbol) ∧
    (∀ id, ∃ found, attempt (Op.lookupLocal id).perform scopes = (.ok (.found found), scopes) ∧
      ∀ symbol, found = some symbol ↔ Gives id logs.current symbol) ∧
    (∀ id type, ¬Declares id logs.current →
      attempt (Op.resolve id type).perform scopes = (.ok .done, scopes)) ∧
    ∀ inside, Balanced inside →
      (attempts Op.perform (.push :: inside ++ [.pop]) scopes).2 = scopes := by
  intro scopes logs
  have h : Tells scopes logs := tells_ofHistory history
  refine ⟨fun symbol line => ?_, fun id => ⟨_, attempt_lookup id scopes, fun _ => h.lookup⟩,
    fun id => ⟨_, attempt_lookupLocal id scopes, fun _ => h.lookupLocal⟩, fun id type hnone => ?_,
    fun inside hinside => attempts_block hinside.enclosing scopes⟩
  · rw [← h.declare?_eq_none, attempt_declare]
    cases scopes.declare? symbol <;> simp
  · rw [attempt_resolve, h.resolve_eq hnone]

/-- Two names are declared outside. Inside, one of them is resolved without effect, and the other is
declared and resolved once more. -/
def shadowing : List Op :=
  [.declare ⟨"a", true, some .int⟩ 1, .declare ⟨"b", true, none⟩ 2, .push, .resolve "b" .bool,
    .declare ⟨"a", false, none⟩ 3, .resolve "a" .float]

theorem lexical_environment_shadowing :
    let scopes := (attempts Op.perform shadowing .root).2
    let logs := Logs.ofHistory shadowing
    Declares "a" logs.current ∧
    attempt (Op.declare ⟨"a", true, none⟩ 4).perform scopes =
      (.error ⟨.alreadyDeclared "a", 4⟩, scopes) ∧
    ¬Declares "b" logs.current ∧
    attempt (Op.resolve "b" .int).perform scopes = (.ok .done, scopes) ∧
    Denotes "a" logs.chain ⟨"a", false, some .float⟩ ∧ Denotes "b" logs.chain ⟨"b", true, none⟩ ∧
    Balanced [.declare ⟨"b", false, some .bool⟩ 5, .resolve "b" .float] ∧
    (attempts Op.perform
      (.push :: [.declare ⟨"b", false, some .bool⟩ 5, .resolve "b" .float] ++ [.pop]) scopes).2 =
        scopes := by
  intro scopes logs
  obtain ⟨hdeclare, hlookup, -, hresolve, hblock⟩ := lexical_environment shadowing
  have hdeclares : Declares "a" logs.current :=
    ⟨⟨"a", false, none⟩, 3, .tail _ (.head _), rfl⟩
  have hfresh : ¬Declares "b" logs.current := by
    simp [logs, Declares, shadowing, Logs.ofHistory, Logs.add, Logs.root]
  have hdenotes : ∀ id symbol, scopes.lookup id = some symbol → Denotes id logs.chain symbol := by
    intro id symbol h
    obtain ⟨found, hfound, hiff⟩ := hlookup id
    rw [attempt_lookup] at hfound
    cases hfound
    exact (hiff symbol).mp h
  have hbalanced : Balanced [.declare ⟨"b", false, some .bool⟩ 5, .resolve "b" .float] :=
    .step (by simp) (.step (by simp) .nil)
  exact ⟨hdeclares, (hdeclare ⟨"a", true, none⟩ 4).2 hdeclares, hfresh, hresolve "b" .int hfresh,
    hdenotes "a" _ (by decide), hdenotes "b" _ (by decide), hbalanced, hblock _ hbalanced⟩

end ExprLang.Scopes
