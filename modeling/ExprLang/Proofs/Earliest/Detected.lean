import ExprLang.Proofs.Earliest.Programs
import ExprLang.Proofs.Language.Programs
import ExprLang.Proofs.Layout.Written
import ExprLang.Proofs.Replay.Rules

/-!
# Errors of form are detected as early as they can be

Where a program is refused for its form, no program starts with the tokens pulled so far: such a
program could be written down, and would be refused in the same way when its first tokens are
pulled.

* `Pulled.unique`: the tokens that a run has pulled.
* `not_ofForm_of_before`: a grammatical program is not refused for its form.
* **`detected_earliest`**: both halves, for whole parses.
-/

namespace ExprLang.Grammar

open TokenStream

variable {g : Grammar} {s t : ParseState}

theorem Pulled.unique {xs ys : List Token} (h : Pulled g s xs t) (h' : Pulled g s ys t) :
    xs = ys := by
  obtain ⟨taken, ht, rfl⟩ := h
  obtain ⟨taken', ht', rfl⟩ := h'
  rw [taken_unique ht.takes ht.ne_eof ht'.takes ht'.ne_eof]

/-- What a run has pulled is what its scanner has passed, if none has been seen before it. -/
theorem Pulls.pulled {tokens : List Token} (h : Pulls g s tokens t) (ha : s.tokens.ahead = none) :
    Pulled g s tokens t := by
  obtain ⟨taken, ht, hne, heq⟩ := h
  rw [ha] at heq
  exact ⟨taken, ⟨ht, hne⟩, heq.symm⟩

theorem Tolerated.not_ofForm {limit : Nat} {e : Failure} (h : Tolerated limit e) : ¬e.OfForm := by
  obtain ⟨d, rfl, h | h⟩ := h
  · exact Failure.not_ofForm_of_semantic h
  · rintro ⟨_, ⟨⟩, -, hd⟩
    exact hd _ h

theorem not_ofForm_of_before (hg : g.IsStandard) {tokens : List Token} {last : Token}
    {e : Failure} (hs : Before g last tokens s) (ha : s.tokens.ahead = none)
    (hlast : last.kind = .eof) (hd : Derives .program tokens) (h : g.program s = .error e t) :
    ¬e.OfForm := by
  have hc : AllClassified g tokens := by
    have := Scanner.classified_of_upcoming (v := g.vocabulary) s.tokens.scanner
    rwa [← upcoming_of_none ha, show s.tokens.upcoming g.vocabulary = _ from hs] at this
  have hrun := accepts_program hg hlast hd hc s hs
  rw [Runs, h] at hrun
  exact hrun.not_ofForm

/-! ## Programs that start as a refused one -/

/-- The tokens that a run has pulled are spelled as tokens can be. -/
theorem Pulled.lexeme {tokens : List Token} (h : Pulled g s tokens t)
    (hs : s.tokens.ahead = none) (hne : ∀ token ∈ tokens, token.kind ≠ .eof) :
    ∀ token ∈ tokens, Scanner.Lexeme g.vocabulary token.kind token.value := by
  obtain ⟨taken, ht, rfl⟩ := h
  have hu := ht.takes.upcoming ht.ne_eof
  rw [upcoming_of_none hs] at hu
  intro token hmem
  refine Scanner.lexeme_of_upcoming s.tokens.scanner token ?_
  rw [hu]
  rcases List.mem_append.mp hmem with hmem | hahead
  · exact List.mem_append_left _ hmem
  · refine List.mem_append_right _ ?_
    rw [upcoming_of_ahead (Option.mem_toList.mp hahead), Upcoming.cons_of_ne (hne token hmem)]
    exact List.mem_cons_self

/-- The last token that was pulled is the `eof` only if it is the last of the source. -/
theorem Pulled.before {tokens : List Token} {last : Token} (h : Pulled g s (tokens ++ [last]) t)
    (hlast : last.kind = .eof) : Before g last tokens s := by
  obtain ⟨taken, ht, heq⟩ := h
  rcases ha : t.tokens.ahead with _ | next <;> rw [ha] at heq
  · rw [Option.toList_none, List.append_nil] at heq
    exact absurd hlast (ht.ne_eof last (heq ▸ List.mem_append_right _ List.mem_cons_self))
  · obtain ⟨rfl, hnext⟩ := List.append_inj' heq rfl
    obtain rfl := List.singleton_inj.mp hnext
    have hu := ht.takes.upcoming ht.ne_eof
    rwa [upcoming_of_eof_ahead ha hlast, List.append_nil] at hu

section

variable {typing : TypingTable} {maxDepth : Nat} {source : Source} {e : Failure}

/-- A program that starts with what a failed parse has pulled is refused in the same way. -/
theorem refused_of_prefix {pulled tokens : List Token}
    (h : (standard .standard typing maxDepth).parseRun source = .error e t) (he : ¬e.Lexical)
    (hp : Pulled (standard .standard typing maxDepth)
      ((standard .standard typing maxDepth).start source) pulled t)
    (hd : Derives .program (pulled ++ tokens)) :
    ∃ s' last ys t', Before (standard .standard typing maxDepth) last ys s' ∧
      s'.tokens.ahead = none ∧ last.kind = .eof ∧ Derives .program ys ∧
        (standard .standard typing maxDepth).program s' = .error e t' := by
  have hg := isStandard_standard typing maxDepth
  obtain ⟨found, hpulls, hreplay⟩ := ((local_program hg _).error h).resolve_left he
  obtain rfl := (hpulls.pulled rfl).unique hp
  have hne := (List.forall_mem_append.mp hd.ne_eof).1
  -- the tokens behind the pulled ones, spelled as their kinds can be and on the last line
  let rest := tokens.map fun token =>
    (⟨token.kind, spelling token.kind, found.getLast?.elim 1 Token.line⟩ : Token)
  have hkinds : (found ++ rest).map Token.kind = (found ++ tokens).map Token.kind := by
    rw [List.map_append, List.map_append, List.map_map]
    rfl
  have hd' := hd.of_kinds hkinds
  have hspelled : ∀ token ∈ found ++ rest, Scanner.Lexeme .standard token.kind token.value := by
    refine List.forall_mem_append.mpr ⟨hp.lexeme rfl hne, fun token ht => ?_⟩
    obtain ⟨original, hmem, rfl⟩ := List.mem_map.mp ht
    have hkind := hd.mem_programKinds original (List.mem_append_right _ hmem)
    exact lexeme_spelling hkind
  let start := (standard .standard typing maxDepth).start
    (.ofString (.ofList (written 1 (found ++ rest))))
  have hholds : start.tokens.scanner.cursor.Holds (written 1 (found ++ rest)) := by
    have := Cursor.holds_ofSource (.ofList (written 1 (found ++ rest)))
    rwa [String.toList_ofList] at this
  obtain ⟨last, hlast, hu⟩ := upcoming_written hholds hspelled hd'.mem_programKinds
  obtain ⟨u, hpass, -⟩ := Scanner.Passes.of_upcoming hu
  obtain ⟨t', ht', -⟩ := hreplay start u ⟨rfl, rfl, rfl, rfl⟩ hpass
  exact ⟨start, last, _, t', hu, rfl, hlast, hd', ht'⟩

/-- **Errors of form are detected as early as they can be.** The tokens that the parse has pulled
start no grammatical program; without the last of them they do. -/
theorem detected_earliest (typing : TypingTable) (maxDepth : Nat) (source : Source) {d : Diagnostic}
    {t : ParseState}
    (h : (standard .standard typing maxDepth).parseRun source = .error (.refused d) t)
    (hform : d.cause.category = .syntactic) (hdeep : ∀ limit, d.cause ≠ .nestingTooDeep limit) :
    ∃ pulled bad, (∀ tokens, Pulled (standard .standard typing maxDepth)
        ((standard .standard typing maxDepth).start source) tokens t ↔ tokens = pulled ++ [bad]) ∧
      (∃ more, Derives .program (pulled ++ more)) ∧
      ∀ tokens last, Derives .program tokens → last.kind = .eof →
        ¬pulled ++ [bad] <+: tokens ++ [last] := by
  have hg := isStandard_standard typing maxDepth
  have he : (Failure.refused d).OfForm := ⟨d, rfl, hform, hdeep⟩
  obtain ⟨pulled, bad, hp, hv⟩ := stalls_program hg _ _ _ h he
  refine ⟨pulled, bad, fun _ => ⟨(·.unique hp), fun heq => heq ▸ hp⟩, hv, ?_⟩
  intro tokens last hd hlast hprefix
  rcases List.prefix_concat_iff.mp hprefix with heq | ⟨more, rfl⟩
  · obtain ⟨rfl, hbad⟩ := List.append_inj' heq rfl
    obtain rfl := List.singleton_inj.mp hbad
    exact not_ofForm_of_before hg (hp.before hlast) rfl hlast hd h he
  · have hlexical : ¬(Failure.refused d).Lexical := fun hl => hl.not_ofForm he
    obtain ⟨s', last', ys, t', hs, ha, hl, hd', h'⟩ := refused_of_prefix h hlexical hp hd
    exact not_ofForm_of_before hg hs ha hl hd' h' he

theorem detected_earliest_operand :
    ∃ d t, (standard .standard .standard 256).parseRun (.ofString "\x7bvar x: Int = -(1 +\n;") =
        .error (.refused d) t ∧ d.cause.category = .syntactic ∧
      (∀ limit, d.cause ≠ .nestingTooDeep limit) ∧
      ∃ pulled bad, (∀ tokens, Pulled (standard .standard .standard 256)
          ((standard .standard .standard 256).start (.ofString "\x7bvar x: Int = -(1 +\n;"))
            tokens t ↔ tokens = pulled ++ [bad]) ∧
        (∃ more, Derives .program (pulled ++ more)) ∧
        ∀ tokens last, Derives .program tokens → last.kind = .eof →
          ¬pulled ++ [bad] <+: tokens ++ [last] := by
  obtain ⟨t, h⟩ := exists_of_failureOf <|
    show failureOf ((standard .standard .standard 256).parseRun
      (.ofString "\x7bvar x: Int = -(1 +\n;")) = some (.refused ⟨.expectedOperand "+", 2⟩) by
      decide +kernel
  exact ⟨_, t, h, rfl, nofun, detected_earliest .standard 256 _ h rfl nofun⟩

end

end ExprLang.Grammar
