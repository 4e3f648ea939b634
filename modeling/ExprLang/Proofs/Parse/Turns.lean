import ExprLang.Proofs.Nesting.Height
import ExprLang.Proofs.Nesting.Limit
import ExprLang.Proofs.Parse.Progress
import ExprLang.Proofs.Scoping.Begins

/-!
# The loops of a parse end

Every turn of a loop takes a token, so a loop has no more turns than there are tokens to come, and
one that finds nothing or fails.

* `Turns`: turns of a loop, one after the other, which all find something.
* `exists_turns`: a loop is a number of them and one more.
* `EndsWithin`: it is at most so many.
* `gains_of_programStep`, `gains_of_bodyStep`: every turn takes a token.
* **`progress_or_nothing`**: rules that find something take a token, the others touch nothing, and
  the loops of a parse end.
-/

namespace ExprLang

/-! ## Turns of a loop -/

section

variable {ε σ α : Type} {size : σ → Nat} {step : EStateM ε σ (Option α)} {s t : σ}
  {found : List α}

/-- The action is performed time after time, and finds something each time. -/
inductive Turns (step : EStateM ε σ (Option α)) : σ → List α → σ → Prop
  | nil (s : σ) : Turns step s [] s
  | cons {s t u : σ} {a : α} {found : List α} (first : step s = .ok (some a) t)
      (others : Turns step t found u) : Turns step s (a :: found) u

theorem Turns.length_le {rank : σ → Nat}
    (hstep : ∀ s a t, step s = .ok (some a) t → rank t < rank s) (h : Turns step s found t) :
    found.length + rank t ≤ rank s := by
  induction h with
  | nil => exact Nat.le_of_eq (Nat.zero_add _)
  | cons first _ ih =>
    have := hstep _ _ _ first
    rw [List.length_cons]
    omega

/-- What ends a loop behind turns that have found something: one that finds nothing, or fails. -/
def EndsAt (step : EStateM ε σ (Option α)) (found : List α) (t : σ) :
    EStateM.Result ε σ (List α) → Prop
  | .ok all u => step t = .ok none u ∧ all = found
  | .error e u => step t = .error e u

theorem exists_turns_of_collectFrom (shrinks : Shrinks size (·.isSome = true) step)
    (front : List α) (s : σ) :
    ∃ found t, Turns step s found t ∧
      EndsAt step (front.reverse ++ found) t (collectFrom size step shrinks front s) := by
  fun_induction collectFrom size step shrinks front s with
  | case1 front s e t hs => exact ⟨[], s, .nil s, hs⟩
  | case2 front s t hs => exact ⟨[], s, .nil s, hs, (List.append_nil _).symm⟩
  | case3 front s a t hs ih =>
    obtain ⟨found, u, hturns, hend⟩ := ih
    rw [List.reverse_cons, List.append_assoc] at hend
    exact ⟨a :: found, u, .cons hs hturns, hend⟩

/-- A loop is a number of turns that find something, and one more. -/
theorem exists_turns (shrinks : Shrinks size (·.isSome = true) step) (s : σ) :
    ∃ found t, Turns step s found t ∧ EndsAt step found t (collect size step shrinks s) :=
  exists_turns_of_collectFrom shrinks [] s

/-- A loop with this outcome ends: at most `n` turns find something, however far it is followed,
and the next finds nothing or fails. -/
structure EndsWithin (n : Nat) (step : EStateM ε σ (Option α)) (s : σ)
    (outcome : EStateM.Result ε σ (List α)) : Prop where
  bounded : ∀ found t, Turns step s found t → found.length ≤ n
  ends : ∃ found t, Turns step s found t ∧ EndsAt step found t outcome

theorem EndsWithin.of_rank {rank : σ → Nat} {n : Nat}
    (hstep : ∀ s a t, step s = .ok (some a) t → rank t < rank s) (hn : rank s ≤ n)
    (shrinks : Shrinks size (·.isSome = true) step) :
    EndsWithin n step s (collect size step shrinks s) where
  bounded _ _ h := by
    have := h.length_le hstep
    omega
  ends := exists_turns shrinks s

end

namespace Grammar

open TokenStream

variable {g : Grammar} {source : Source} {s t : ParseState} {room : Nat}

/-! ## Turns take tokens -/

theorem Gains.toCome_lt (h : Gains g s t) : toCome g t < toCome g s := by
  obtain ⟨tokens, hne, ht, heof⟩ := h
  rw [toCome_of_takes ht heof]
  have := List.length_pos_iff.mpr hne
  omega

theorem topLevelUnit_eq (g : Grammar) (s : ParseState) :
    g.topLevelUnit s = g.unitIn (g.maxDepth - s.depth) s := rfl

theorem gains_of_programStep (hg : g.IsStandard) {unit : Option Tree}
    (h : g.programStep s = .ok (some unit) t) : Gains g s t := by
  obtain ⟨kind, u, hk, h⟩ := bind_eq_ok_iff.mp h
  obtain ⟨first, rfl, hu, -⟩ := advance_of_currentKind hk
  split at h
  · cases (pure_eq_ok_iff.mp h).1
  · obtain ⟨_, w, hr, h⟩ := bind_eq_ok_iff.mp h
    obtain rfl := modify_eq_ok_iff.mp hr
    obtain ⟨r, h, -⟩ := map_eq_ok_iff.mp h
    have hunit := of_notingFailure h
    rw [topLevelUnit_eq] at hunit
    have hgain := gains_of_unitIn hg hunit
    exact .of_looks (t := u.atDepth 0) hu.takes hgain

theorem gains_of_bodyStep (hg : g.IsStandard) {trees : List Tree}
    (h : bodyStep (g.statementPart room) (g.blockPart room) s = .ok (some trees) t) :
    Gains g s t := by
  obtain ⟨statement, u, hs, h⟩ := bind_eq_ok_iff.mp h
  obtain ⟨block, w, hb, h⟩ := bind_eq_ok_iff.mp h
  rcases statement with _ | statement
  · rcases block with _ | block
    · cases (pure_eq_ok_iff.mp h).1
    · obtain ⟨-, rfl⟩ := pure_eq_ok_iff.mp h
      exact (gains_of_blockIn hg hb).of_looks (idle_statementIn room s u hs).takes
  · have hu := gains_of_statementIn hg hs
    rcases block with _ | block
    · obtain ⟨-, rfl⟩ := pure_eq_ok_iff.mp h
      exact hu.looks (idle_blockIn room u w hb).takes
    · obtain ⟨-, rfl⟩ := pure_eq_ok_iff.mp h
      exact hu.trans (gains_of_blockIn hg hb)

/-! ## Tokens of a text -/

theorem Rounds.toCome_le (hg : g.IsStandard) {units : List (Option Tree)}
    (h : Rounds g s units t) : toCome g t ≤ toCome g s := by
  induction h with
  | refl => exact Nat.le_refl _
  | round first _ ih => exact Nat.le_trans ih (gains_of_programStep hg first).toCome_lt.le

theorem Begins.toCome_le (hg : g.IsStandard) {entry : Entry} (h : Begins g source entry room s) :
    toCome g s ≤ toCome g (g.start source) := by
  -- A rule that is entered behind another one has the tokens that the other did not take.
  induction h with
  | unit rounds look =>
    obtain ⟨_, -, ht, -⟩ := advance_of_currentKind look
    exact Nat.le_trans (toCome_of_look ht).ge (rounds.toCome_le hg)
  | instead _ run ih => exact Nat.le_trans ((forms_of_statementIn run).toCome_le hg) ih
  | @inside _ _ t opening _ run ih =>
    rcases advance_of_accept run with ⟨_, hr, hk, ht⟩ | ⟨hr, -⟩
    · cases hr
      have hne : opening.kind ≠ .eof := by rw [hk]; decide
      have hinside : toCome g (t.inside opening) = toCome g t := rfl
      rw [hinside]
      exact Nat.le_trans (toCome_le_of_advance ht (List.forall_mem_singleton.mpr hne)) ih
    · cases hr
  | behind _ run ih => exact Nat.le_trans ((forms_of_statementIn run).toCome_le hg) ih
  | again _ run ih => exact Nat.le_trans (gains_of_bodyStep hg run).toCome_lt.le ih

/-- The parse of a source makes a number of turns, and one in which it ends. -/
theorem exists_turns_of_parse (hg : g.IsStandard) (source : Source) :
    ∃ found t, Turns g.programStep (g.start source) found t ∧
      found.length ≤ toCome g (g.start source) ∧
      ((∃ u, g.programStep t = .ok none u ∧ g.parse source = .ok (found.filterMap id)) ∨
        ∃ e u, g.programStep t = .error e u ∧ g.parse source = .error e) := by
  obtain ⟨found, t, hturns, hend⟩ := exists_turns g.programStep_shrinks (g.start source)
  have hlength := hturns.length_le fun _ _ _ hstep => (gains_of_programStep hg hstep).toCome_lt
  refine ⟨found, t, hturns, Nat.le_trans (Nat.le_add_right _ _) hlength, ?_⟩
  rw [parse, parseRun, program_eq]
  rcases hc : collect ParseState.remaining g.programStep g.programStep_shrinks (g.start source) with
    ⟨all, u⟩ | ⟨e, u⟩ <;> rw [hc] at hend
  · obtain ⟨hnone, rfl⟩ := hend
    exact .inl ⟨u, hnone, rfl⟩
  · exact .inr ⟨e, u, hend, rfl⟩

/-! ## Rules and loops -/

/-- **A rule makes progress or touches nothing**, and so the loops of blocks and of programs end,
with no more turns that find something than there are tokens to come. -/
theorem progress_or_nothing :
    (∀ g : Grammar, Idle g g.operand ∧ Idle g g.trailed ∧ Idle g g.signed ∧
      (∀ previous inParen, Idle g (g.binding previous inParen)) ∧ Idle g g.expression ∧
      Idle g g.statement ∧ Idle g g.block ∧ Idle g g.typeClause) ∧
    ∀ (typing : TypingTable) (maxDepth : Nat), let g := standard .standard typing maxDepth
      Gainful g g.operand ∧ Gainful g g.trailed ∧ Gainful g g.signed ∧
      (∀ previous inParen, Gainful g (g.binding previous inParen)) ∧ Gainful g g.expression ∧
      Gainful g g.statement ∧ Gainful g g.block ∧ Gainful g g.typeClause ∧
      (∀ s r t, g.topLevelUnit s = .ok r t → Gains g s t) ∧
      (∀ room s, EndsWithin (toCome g s) (bodyStep (g.statementPart room) (g.blockPart room)) s
        (collect ParseState.remaining (bodyStep (g.statementPart room) (g.blockPart room))
          (bodyStep_shrinks _ _) s)) ∧
      ∀ source : Source,
        (∀ tokens stream, tokenize .standard (.ofSource source) = .ok tokens stream →
          tokens.length = toCome g (g.start source) + 1) ∧
        (∀ entry room s, Begins g source entry room s → toCome g s ≤ toCome g (g.start source)) ∧
        ∃ found t, Turns g.programStep (g.start source) found t ∧
          found.length ≤ toCome g (g.start source) ∧
          ((∃ u, g.programStep t = .ok none u ∧ g.parse source = .ok (found.filterMap id)) ∨
            ∃ e u, g.programStep t = .error e u ∧ g.parse source = .error e) := by
  refine ⟨fun g => ⟨.atDepth fun _ => idle_operandOf _, .atDepth fun _ => idle_trailedOf _,
    .atDepth idle_signedIn, fun _ _ => .atDepth fun _ => idle_bindingIn _ _ _,
    .atDepth idle_expressionIn, .atDepth idle_statementIn, .atDepth idle_blockIn,
    idle_typeClause⟩, fun typing maxDepth => ?_⟩
  have hg := isStandard_standard typing maxDepth
  refine ⟨.atDepth fun _ _ _ _ => gains_of_operandOf hg.positions,
    .atDepth fun _ _ _ _ => gains_of_trailedOf hg.positions,
    .atDepth fun _ _ _ _ => gains_of_signedIn hg.positions,
    fun _ _ => .atDepth fun _ _ _ _ => gains_of_bindingIn hg.positions,
    .atDepth fun _ _ _ _ => gains_of_expressionIn hg.positions,
    .atDepth fun _ _ _ _ => gains_of_statementIn hg, .atDepth fun _ _ _ _ => gains_of_blockIn hg,
    fun _ _ _ => gains_of_typeClause, fun s r t h => gains_of_unitIn hg h, ?_, ?_⟩
  · intro room s
    exact .of_rank (fun _ _ _ hstep => (gains_of_bodyStep hg hstep).toCome_lt) (Nat.le_refl _) _
  · intro source
    refine ⟨fun tokens stream h => ?_, fun _ _ _ h => h.toCome_le hg, exists_turns_of_parse hg _⟩
    obtain ⟨last, -, hupcoming, htokens⟩ := upcoming_of_tokenize h
    have hn : toCome (standard .standard typing maxDepth)
        ((standard .standard typing maxDepth).start source) = tokens.dropLast.length :=
      congrArg (fun upcoming => upcoming.1.length) hupcoming
    rw [hn, htokens, List.dropLast_concat, List.length_append, List.length_singleton]

/-- A semicolon is no block; one in braces is, and has three tokens. -/
theorem progress_or_nothing_braces :
    let g := standard .standard .standard 4
    (∃ t, g.block (g.start (.ofString ";")) = .ok none t ∧
      Advance g (g.start (.ofString ";")) [] t) ∧
    (∃ block t, g.block (g.start (.ofString "{;}")) = .ok (some block) t ∧
      Gains g (g.start (.ofString "{;}")) t) ∧
    (∃ r t, g.topLevelUnit (g.start (.ofString "{;}")) = .ok r t ∧
      Gains g (g.start (.ofString "{;}")) t) ∧
    (∃ tokens stream, tokenize .standard (.ofSource (.ofString "{;}")) = .ok tokens stream ∧
      tokens.length = 4 ∧ tokens.length = toCome g (g.start (.ofString "{;}")) + 1) ∧
    ∃ kind t, g.currentKind (g.start (.ofString "{;}")) = .ok kind t ∧ kind ≠ .eof ∧
      toCome g (t.atDepth 0) ≤ toCome g (g.start (.ofString "{;}")) := by
  intro g
  obtain ⟨hidle, hstandard⟩ := progress_or_nothing
  obtain ⟨-, -, -, -, -, -, hidle, -⟩ := hidle g
  obtain ⟨-, -, -, -, -, -, hblock, -, hunit, -, hsource⟩ := hstandard .standard 4
  obtain ⟨htokens, hbegins, -⟩ := hsource (.ofString "{;}")
  obtain ⟨r, t, hr, hnone⟩ := exists_ok_of_valueOf (f := Option.isNone) (b := true) <|
    show (valueOf (g.block (g.start (.ofString ";")))).map Option.isNone = some true by
      decide +kernel
  obtain rfl := Option.isNone_iff_eq_none.mp hnone
  obtain ⟨block, u, hb, -⟩ := exists_of_valueOf (f := Tree.rank) (b := 1) <|
    show (valueOf (g.block (g.start (.ofString "{;}")))).map (Option.map Tree.rank) =
      some (some 1) by decide +kernel
  obtain ⟨r', w, hr', -⟩ := exists_ok_of_valueOf (f := Option.isNone) (b := true) <|
    show (valueOf (g.topLevelUnit (g.start (.ofString "{;}")))).map Option.isNone = some true by
      decide +kernel
  obtain ⟨tokens, stream, hs, hlength⟩ := exists_ok_of_valueOf (f := List.length) (b := 4) <|
    show (valueOf (tokenize .standard (.ofSource (.ofString "{;}")))).map List.length = some 4 by
      decide +kernel
  obtain ⟨kind, x, hk, rfl⟩ := exists_ok_of_valueOf (f := id) (b := Kind.openCurly) <|
    show (valueOf (g.currentKind (g.start (.ofString "{;}")))).map id = some .openCurly by
      decide +kernel
  exact ⟨⟨t, hr, hidle _ _ hr⟩, ⟨block, u, hb, hblock _ _ _ hb⟩, ⟨r', w, hr', hunit _ _ _ hr'⟩,
    ⟨tokens, stream, hs, hlength, htokens _ _ hs⟩,
    _, x, hk, by decide, hbegins _ _ _ (.unit (.refl _) hk (by decide))⟩

end Grammar

end ExprLang
