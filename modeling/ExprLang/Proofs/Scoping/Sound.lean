import ExprLang.Proofs.Scoping.View
import ExprLang.Proofs.Typing.Sound

/-!
# Soundness of scoping

In an accepted program names mean what the block structure of its trees says.

* `NodeScoped`: what a view demands of a node in it.
* `Resolved.settle`: what is resolved while a declaration waits for its type is so behind it.
* `Forms.names`: the names of a block are those declared directly in it, in order.
* **`scoped_of_parse`**: accepted programs are lexically scoped.
-/

namespace ExprLang

/-- No name is declared twice in a block of these statements. -/
def DistinctNames (statements : List Tree) : Prop :=
  ((statements.flatMap Tree.declared).map Symbol.id).Nodup

/-- A variable has type and mutability of its innermost visible declaration, only a variable so
declared is assigned to, and a block declares no name twice. -/
def NodeScoped (view : View) : Tree → Prop
  | .reference token type assignable => ∃ symbol, view.nearest token.value = some symbol ∧
      symbol.type = type ∧ symbol.assignable = assignable
  | .assignment _ _ (.declaration ..) _ => True
  | .assignment _ _ target _ => ∃ token type assignable symbol,
      target = .reference token type assignable ∧ view.nearest token.value = some symbol ∧
        symbol.assignable = true
  | .block statements => DistinctNames statements
  | .literal .. | .unary .. | .binary .. | .declaration .. | .empty => True

/-- Every node of a program fits its view, and no name is declared twice globally. -/
structure LexicallyScoped (units : List Tree) : Prop where
  nodes : ∀ visit ∈ visitsAll .root units, NodeScoped visit.1 visit.2
  global : DistinctNames units

namespace Resolved

variable {v : Vocabulary} {scopes : Scopes}

theorem declared_eq_nil {tree : Tree} (h : Resolved v scopes tree) : tree.declared = [] := by
  induction h with
  | literal | reference => rfl
  | unary _ ih => exact ih
  | binary _ _ ihl ihr => rw [Tree.declared, ihl, ihr, List.append_nil]
  | assignment _ _ _ ih => rw [Tree.declared, Tree.declared, ih, List.append_nil]

theorem nodeScoped {view : View} {tree : Tree} (h : Resolved v scopes tree)
    (hm : Mirrors scopes view) : ∀ visit ∈ visits view tree, NodeScoped visit.1 visit.2 := by
  induction h with
  | literal => exact List.forall_mem_singleton.mpr trivial
  | reference known =>
    rw [hm.lookup] at known
    exact List.forall_mem_singleton.mpr ⟨_, known, rfl, rfl⟩
  | unary _ ih => exact List.forall_mem_cons.mpr ⟨trivial, ih⟩
  | binary first _ ihl ihr =>
    rw [visits, first.declared_eq_nil, View.declare_nil]
    exact List.forall_mem_cons.mpr ⟨trivial, List.forall_mem_append.mpr ⟨ihl, ihr⟩⟩
  | assignment known assignable _ ih =>
    rw [hm.lookup] at known
    rw [visits, Tree.declared, View.declare_nil]
    refine List.forall_mem_cons.mpr ⟨⟨_, _, _, _, rfl, known, assignable⟩, ?_⟩
    exact List.forall_mem_append.mpr ⟨List.forall_mem_singleton.mpr ⟨_, known, rfl, rfl⟩, ih⟩

/-- A resolved tree whose names are all typed depends on the typed symbols only. -/
theorem settle {inner behind : Scopes} {table : TypingTable} {tree : Tree}
    (h : Resolved v inner tree) (hn : ∀ node ∈ tree.preorder, NodeTyped v table node)
    (hl : ∀ id symbol, inner.lookup id = some symbol → symbol.type.isSome = true →
      behind.lookup id = some symbol) : Resolved v behind tree := by
  induction h with
  | literal known => exact .literal known
  | reference known => exact .reference (hl _ _ known (hn _ List.mem_cons_self))
  | unary _ ih => exact .unary (ih (List.forall_mem_cons.mp hn).2)
  | binary _ _ ihl ihr =>
    obtain ⟨hleft, hright⟩ := List.forall_mem_append.mp (List.forall_mem_cons.mp hn).2
    exact .binary (ihl hleft) (ihr hright)
  | assignment known assignable _ ih =>
    obtain ⟨htarget, hvalue⟩ := List.forall_mem_append.mp (List.forall_mem_cons.mp hn).2
    exact .assignment (hl _ _ known (htarget _ List.mem_cons_self)) assignable (ih hvalue)

end Resolved

theorem Table.keys_insert {κ α : Type} [DecidableEq κ] (t : Table κ α) (k : κ) (v : α) :
    (t.insert k v).keys = if k ∈ t.keys then t.keys else t.keys ++ [k] :=
  map_fst_write k v t.entries

namespace Scopes

theorem lookupLocal_declare {scopes behind : Scopes} {symbol : Symbol}
    (h : scopes.declare? symbol = some behind) :
    (behind.lookupLocal symbol.id).isSome = true := by
  unfold declare? at h
  split at h
  · cases h
  · cases h
    simp [lookupLocal]

/-- The symbol of a declaration is the same with its type, if it had that before. -/
theorem lookup_resolve_declare {scopes inner : Scopes} {symbol found : Symbol} {type : DataType}
    {id : String} (h : scopes.declare? symbol = some inner)
    (ht : ∀ t, symbol.type = some t → type = t) (hl : inner.lookup id = some found)
    (hs : found.type.isSome = true) : (inner.resolve symbol.id type).lookup id = some found := by
  rw [lookup_resolve, hl]
  rw [lookup_declare h] at hl
  by_cases hid : symbol.id = id
  · rw [if_pos hid] at hl
    cases hl
    obtain ⟨t, hsome⟩ := Option.isSome_iff_exists.mp hs
    rw [if_pos ⟨hid, lookupLocal_declare h⟩, Option.map_some, ht t hsome, ← hsome]
  · rw [if_neg fun hc => hid hc.1]

theorem keys_declare {scopes behind : Scopes} {symbol : Symbol}
    (h : scopes.declare? symbol = some behind) :
    behind.current.keys = scopes.current.keys ++ [symbol.id] := by
  unfold declare? at h
  split at h
  · cases h
  · next hnew =>
    cases h
    have hnone : scopes.current.get? symbol.id = none := by
      simpa [Table.contains] using hnew
    exact (Table.keys_insert _ _ _).trans (if_neg (Table.get?_eq_none_iff.mp hnone))

theorem keys_resolve (scopes : Scopes) (id : String) (type : DataType) :
    (scopes.resolve id type).current.keys = scopes.current.keys := by
  unfold resolve Table.modify
  rcases hg : scopes.current.get? id with _ | symbol
  · rfl
  · have hmem : id ∈ scopes.current.keys := by
      by_contra hc
      rw [Table.get?_eq_none_iff.mpr hc] at hg
      cases hg
    exact (Table.keys_insert _ _ _).trans (if_pos hmem)

end Scopes

namespace Grammar

variable {g : Grammar}

/-- The names of the innermost scope are those declared directly in the passage, in order. -/
theorem Forms.names {passage : Passage} {room : Nat} {before behind : Scopes}
    {tokens : List Token} {trees : List Tree}
    (h : Forms g passage room before tokens trees behind) :
    behind.current.keys =
      before.current.keys ++ (trees.flatMap Tree.declared).map Symbol.id := by
  induction h with
  | semicolon | nil => exact (List.append_nil _).symm
  | expression _ _ content typed =>
    rw [List.flatMap_singleton, (content.resolved_checked typed).declared_eq_nil]
    exact (List.append_nil _).symm
  | bare _ _ _ fresh _ => exact Scopes.keys_declare fresh
  | initialized _ _ _ fresh _ content _ typed _ =>
    rw [Scopes.keys_resolve, Scopes.keys_declare fresh, List.flatMap_singleton, Tree.declared,
      (content.resolved_checked typed).declared_eq_nil]
    rfl
  | block =>
    split_ifs <;> exact (List.append_nil _).symm
  | cons _ _ _ ih ih' =>
    rw [ih', ih, List.flatMap_append, List.map_append, List.append_assoc]

theorem Forms.distinctNames {passage : Passage} {room : Nat} {before behind : Scopes}
    {tokens : List Token} {trees : List Tree}
    (h : Forms g passage room before tokens trees behind) (hnew : before.current = .empty) :
    DistinctNames trees := by
  have hk := h.names
  rw [hnew] at hk
  unfold DistinctNames
  rw [← List.nil_append (List.map _ _)]
  exact hk ▸ behind.current.keys_nodup

/-- Scopes mirror the view throughout a passage, and its nodes fit their views. -/
theorem Forms.nodeScoped {passage : Passage} {room : Nat} {before behind : Scopes}
    {tokens : List Token} {trees : List Tree} {view : View}
    (h : Forms g passage room before tokens trees behind) (hs : Settled before)
    (hm : Mirrors before view) :
    Mirrors behind (view.declare (trees.flatMap Tree.declared)) ∧
      ∀ visit ∈ visitsAll view trees, NodeScoped visit.1 visit.2 := by
  induction h generalizing view with
  | semicolon | nil => exact ⟨hm, List.forall_mem_nil _⟩
  | expression _ _ content typed =>
    have hr := content.resolved_checked typed
    rw [List.flatMap_singleton, hr.declared_eq_nil, View.declare_nil, visitsAll_singleton]
    exact ⟨hm, hr.nodeScoped hm⟩
  | bare _ _ _ fresh _ =>
    exact ⟨hm.declare fresh, List.forall_mem_singleton.mpr trivial⟩
  | initialized _ _ _ fresh _ content _ typed unified =>
    obtain ⟨found, hv, -, ht⟩ := unify_eq_ok unified
    have hr := content.resolved_checked typed
    have hn := (content.resolved fun _ _ _ h => nomatch h).check_typed typed
      (Option.isSome_of_eq_some hv)
    -- resolved while its declaration had no type yet, and the same with it: its names are typed
    have hsettled := hr.settle hn fun _ _ => Scopes.lookup_resolve_declare fresh ht
    rw [List.flatMap_singleton, Tree.declared, hr.declared_eq_nil, visitsAll_singleton]
    refine ⟨hm.resolve fresh _, List.forall_mem_cons.mpr ⟨trivial, ?_⟩⟩
    exact List.forall_mem_cons.mpr ⟨trivial, hsettled.nodeScoped (hm.resolve fresh _)⟩
  | block _ content _ ih =>
    split_ifs
    · exact ⟨hm, List.forall_mem_nil _⟩
    · refine ⟨hm, ?_⟩
      rw [visitsAll_singleton]
      exact List.forall_mem_cons.mpr ⟨content.distinctNames rfl, (ih hs.push hm.push).2⟩
  | cons _ first _ ih ih' =>
    obtain ⟨hmid, hx⟩ := ih hs hm
    obtain ⟨hbehind, hy⟩ := ih' (first.typed hs).1 hmid
    rw [List.flatMap_append, View.declare_append, visitsAll_append]
    exact ⟨hbehind, List.forall_mem_append.mpr ⟨hx, hy⟩⟩

/-- A block may declare any name, whatever is declared around it. -/
theorem declare_push_isSome (scopes : Scopes) (symbol : Symbol) :
    (scopes.push.declare? symbol).isSome = true := rfl

/-- **Accepted programs are lexically scoped**: at every node, of which the visits leave none out,
names mean their innermost visible declarations. A block may declare any name again. -/
theorem scoped_of_parse {source : Source} {units : List Tree} (h : g.parse source = .ok units) :
    LexicallyScoped units ∧
      (visitsAll .root units).map Prod.snd = Tree.preorderAll units ∧
      ∀ (scopes : Scopes) (symbol : Symbol), (scopes.push.declare? symbol).isSome = true := by
  obtain ⟨tokens, last, stream, scopes, -, -, -, hf⟩ := forms_of_parse h
  refine ⟨⟨?_, hf.distinctNames rfl⟩, visitsAll_map_snd _ _, declare_push_isSome⟩
  exact (hf.nodeScoped settled_root .root).2

theorem scoped_shadowing : ∃ units,
    (standard .standard .standard 16).parse
      (.ofString "var a = 1; \x7b const b = a; var a : Bool; (a) = a == a; \x7d a = a;") =
        .ok units ∧ LexicallyScoped units := by
  obtain ⟨units, h⟩ := exists_of_isOk <| show ((standard .standard .standard 16).parse
    (.ofString "var a = 1; \x7b const b = a; var a : Bool; (a) = a == a; \x7d a = a;")).isOk =
      true by decide +kernel
  exact ⟨units, h, (scoped_of_parse h).1⟩

end Grammar

end ExprLang
