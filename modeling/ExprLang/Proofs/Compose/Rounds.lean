import ExprLang.Proofs.Compose.Seam
import ExprLang.Proofs.Earliest.Programs
import ExprLang.Proofs.Replay.Rules

/-!
# The rounds of a program

A program is parsed in rounds, of which each finds a unit, up to the one that finds the end.

* `Rounds`: rounds that each find a unit; `exists_rounds`: an accepted program is a number of them.
* `Rounds.program`: what is found behind them goes behind their units.
* `Rounds.replays`: they can be replayed from the tokens they pull.
* **`Rounds.append`**: the rounds of a text are the first ones of a longer text.
-/

namespace ExprLang.Grammar

open TokenStream

variable {g : Grammar} {s t u : ParseState} {units : List (Option Tree)}

/-- The parse comes from the first state to the second in rounds that find these units. -/
inductive Rounds (g : Grammar) : ParseState → List (Option Tree) → ParseState → Prop
  | refl (s : ParseState) : Rounds g s [] s
  | round {s t u : ParseState} {unit : Option Tree} {units : List (Option Tree)}
      (first : g.programStep s = .ok (some unit) t) (others : Rounds g t units u) :
      Rounds g s (unit :: units) u

theorem Rounds.trans {others : List (Option Tree)} (h : Rounds g s units t)
    (h' : Rounds g t others u) : Rounds g s (units ++ others) u := by
  induction h with
  | refl => exact h'
  | round first _ ih => exact .round first (ih h')

/-! ## Programs in rounds -/

theorem program_eq (g : Grammar) (s : ParseState) :
    g.program s =
      match collect ParseState.remaining g.programStep g.programStep_shrinks s with
      | .ok found t => .ok (found.filterMap id)
          (t.note (.finished (found.filterMap id).length t.scopes.current.size))
      | .error e t => .error e t := by
  unfold program
  simp only [bind, EStateM.bind]
  cases collect ParseState.remaining g.programStep g.programStep_shrinks s <;> rfl

theorem rounds_of_collectFrom {found all : List (Option Tree)}
    (h : collectFrom ParseState.remaining g.programStep g.programStep_shrinks found s =
      .ok all u) :
    ∃ units t, Rounds g s units t ∧ g.programStep t = .ok none u ∧
      all = found.reverse ++ units := by
  fun_induction collectFrom ParseState.remaining g.programStep g.programStep_shrinks found s with
  | case1 => cases h
  | case2 found s t hs =>
    cases h
    exact ⟨[], s, .refl s, hs, (List.append_nil _).symm⟩
  | case3 found s unit t hs ih =>
    obtain ⟨units, w, hrounds, hlast, rfl⟩ := ih h
    exact ⟨unit :: units, w, .round hs hrounds, hlast, by simp⟩

/-- An accepted program is a number of rounds that each find a unit, and one that does not. -/
theorem exists_rounds {trees : List Tree} (h : g.program s = .ok trees u) :
    ∃ units t w, Rounds g s units t ∧ g.programStep t = .ok none w ∧
      trees = units.filterMap id ∧ u.scopes = w.scopes := by
  rw [program_eq] at h
  split at h
  · next found w hc =>
    cases h
    obtain ⟨units, t, hrounds, hlast, hfound⟩ := rounds_of_collectFrom hc
    obtain rfl : found = units := hfound
    exact ⟨found, t, w, hrounds, hlast, rfl, rfl⟩
  · cases h

section

variable {σ α : Type} {size : σ → Nat} {step : EStateM Failure σ (Option α)}
  {shrinks : Shrinks size (·.isSome = true) step}

theorem collectFrom_append (found more : List α) (s : σ) :
    collectFrom size step shrinks (more ++ found) s =
      match collectFrom size step shrinks more s with
      | .ok all t => .ok (found.reverse ++ all) t
      | .error e t => .error e t := by
  fun_induction collectFrom size step shrinks more s with
  | case1 more s e t hs => rw [Parallel.collectFrom_eq, hs]
  | case2 more s t hs => rw [Parallel.collectFrom_eq, hs, List.reverse_append]
  | case3 more s a t hs ih => rw [Parallel.collectFrom_eq, hs, ← ih, List.cons_append]

/-- What a loop has found before is in front of what it finds. -/
theorem collectFrom_eq_collect (found : List α) (s : σ) :
    collectFrom size step shrinks found s =
      match collect size step shrinks s with
      | .ok all t => .ok (found.reverse ++ all) t
      | .error e t => .error e t := collectFrom_append found [] s

end

/-- `Behind front r r'`: the second outcome is the first with other units in front. -/
def Behind (front : List Tree) (r r' : EStateM.Result Failure ParseState (List Tree)) : Prop :=
  match r with
  | .ok trees t => ∃ t', r' = .ok (front ++ trees) t' ∧ t'.scopes = t.scopes
  | .error e _ => ∃ t', r' = .error e t'

theorem behind_of_programStep {unit : Option Tree} (h : g.programStep s = .ok (some unit) t) :
    Behind unit.toList (g.program t) (g.program s) := by
  have hround : collect ParseState.remaining g.programStep g.programStep_shrinks s =
      collectFrom ParseState.remaining g.programStep g.programStep_shrinks [unit] t := by
    rw [collect, Parallel.collectFrom_eq, h]
  rw [program_eq, program_eq, hround, collectFrom_eq_collect]
  rcases collect ParseState.remaining g.programStep g.programStep_shrinks t with
    ⟨all, u⟩ | ⟨e, u⟩
  · exact ⟨_, congrArg (EStateM.Result.ok · _) (filterMap_id_cons unit all), rfl⟩
  · exact ⟨u, rfl⟩

theorem Behind.trans {front others : List Tree}
    {r r' r'' : EStateM.Result Failure ParseState (List Tree)} (h : Behind others r r')
    (h' : Behind front r' r'') : Behind (front ++ others) r r'' := by
  unfold Behind at h
  split at h
  · obtain ⟨t, rfl, ht⟩ := h
    obtain ⟨t', rfl, ht'⟩ := h'
    exact ⟨t', by rw [List.append_assoc], ht'.trans ht⟩
  · obtain ⟨t, rfl⟩ := h
    exact h'

/-- **What is found behind rounds goes behind their units**, and what fails there fails. -/
theorem Rounds.program (h : Rounds g s units t) :
    Behind (units.filterMap id) (g.program t) (g.program s) := by
  induction h with
  | refl s =>
    unfold Behind
    split
    · next hr => exact ⟨_, hr, rfl⟩
    · next hr => exact ⟨_, hr⟩
  | round first _ ih =>
    rw [filterMap_id_cons]
    exact ih.trans (behind_of_programStep first)

/-! ## Rounds in a longer text -/

theorem Rounds.ahead (h : Rounds g s units t) (hs : s.tokens.ahead = none) :
    t.tokens.ahead = none := by
  induction h with
  | refl => exact hs
  | round first _ ih => exact ih (ahead_of_programStep first)

theorem Rounds.consumes (hg : g.IsStandard) (h : Rounds g s units t) :
    ∃ tokens, Consumes g s tokens t ∧ Derives .program tokens := by
  induction h with
  | refl s => exact ⟨[], .refl s, .nil⟩
  | round first _ ih =>
    obtain ⟨xs, ht, hf⟩ := forms_of_programStep first
    have hd : Derives .program xs := hf.derives hg
    obtain ⟨ys, hu, hd'⟩ := ih
    exact ⟨xs ++ ys, .trans ⟨ht, hd.ne_eof⟩ hu, hd.program_append hd'⟩

theorem Rounds.enclosing (h : Rounds g s units t) : t.scopes.enclosing = s.scopes.enclosing := by
  induction h with
  | refl => rfl
  | round first _ ih =>
    obtain ⟨_, -, hf⟩ := forms_of_programStep first
    exact ih.trans hf.enclosing

/-- **Rounds can be replayed**: they depend on the tokens that they pull only. -/
theorem Rounds.replays (hg : g.IsStandard) (h : Rounds g s units t) :
    ∃ tokens, Pulls g s tokens t ∧ ∀ s' u, Level s s' →
      Scanner.Passes g.vocabulary s'.tokens.scanner tokens u →
        ∃ t', Rounds g s' units t' ∧ Level t t' ∧ t'.tokens.scanner = u := by
  induction h with
  | refl s =>
    refine ⟨[], .refl s, fun s' u hs hp => ⟨s', .refl s', hs, hp.eq_of_nil.symm⟩⟩
  | round first _ ih =>
    obtain ⟨xs, hxs, hfirst⟩ := (local_programStep hg _).ok first
    obtain ⟨ys, hys, hothers⟩ := ih
    refine ⟨xs ++ ys, hxs.trans hys, fun s' u hs hp => ?_⟩
    obtain ⟨m, hpx, hpy⟩ := hp.split
    obtain ⟨t', ht', hlevel, rfl⟩ := hfirst s' m hs hpx
    obtain ⟨u', hu', hlevel', hscanner⟩ := hothers t' u hlevel hpy
    exact ⟨u', .round ht' hu', hlevel', hscanner⟩

/-- **The rounds of a text are the first of a longer text**, and lead to the same line. -/
theorem Rounds.append {typing : TypingTable} {maxDepth : Nat} {s' : ParseState}
    {cs more : List Char} (h : Rounds (standard .standard typing maxDepth) s units t)
    (hs : s.tokens.ahead = none) (hlevel : Level s s')
    (hline : s'.tokens.scanner.line = s.tokens.scanner.line)
    (hcs : s.tokens.scanner.cursor.Holds cs) (hmore : s'.tokens.scanner.cursor.Holds (cs ++ more)) :
    ∃ rest t', t.tokens.scanner.cursor.Holds rest ∧
      lineBehind t.tokens.scanner.line rest = lineBehind s.tokens.scanner.line cs ∧
        Rounds (standard .standard typing maxDepth) s' units t' ∧ Level t t' ∧
          t'.tokens.scanner.cursor.Holds (rest ++ more) ∧
            t'.tokens.scanner.line = t.tokens.scanner.line := by
  have hg := isStandard_standard typing maxDepth
  obtain ⟨tokens, hconsumes, hd⟩ := h.consumes hg
  obtain ⟨pulled, hpulls, hreplay⟩ := h.replays hg
  -- no token is seen before and behind the rounds, so those that they take are those that they pull
  obtain rfl : pulled = tokens := by
    obtain ⟨taken, ht, hne, heq⟩ := hpulls
    rw [hs, h.ahead hs, Option.toList_none, List.nil_append, List.append_nil] at heq
    exact heq.trans (taken_unique ht hne hconsumes.takes hconsumes.ne_eof)
  obtain ⟨rest, hrest, hcount⟩ := hpulls.passes.count_lineFeeds Vocabulary.withinLines_standard hcs
  obtain ⟨rest', u, hrest', hpass, hu, huline⟩ :=
    hpulls.passes.append hd.ne_eof hd.program_last hcs hmore hline
  obtain rfl := hrest.unique hrest'
  obtain ⟨t', hrounds, hlevel', rfl⟩ := hreplay s' u hlevel hpass
  exact ⟨rest, t', hrest, hcount, hrounds, hlevel', hu, huline⟩

/-- Where no unit is found there are only blanks. -/
theorem blank_of_programStep_none {typing : TypingTable} {maxDepth : Nat} {rest : List Char}
    (h : (standard .standard typing maxDepth).programStep s = .ok none t)
    (hs : s.tokens.ahead = none) (hrest : s.tokens.scanner.cursor.Holds rest) :
    ∀ c ∈ rest, Unicode.isBlank c = true := by
  obtain ⟨last, hadvance, ha, hk⟩ := of_programStep_none h
  have hu := hadvance.takes.upcoming (List.forall_mem_nil _)
  rw [upcoming_of_eof_ahead ha hk, upcoming_of_none hs] at hu
  have hpartition := partition_of_upcoming Scanner.Spells.kind_ne_eof hrest hu
  cases hpartition with
  | nil blank => exact blank

end ExprLang.Grammar
