import ExprLang.Proofs.Nesting.Room
import ExprLang.Proofs.Parallel.Limits
import ExprLang.Proofs.Parallel.Programs
import ExprLang.Proofs.Parse.Exact
import ExprLang.Proofs.Lexing.Partition

/-!
# The nesting limit only cuts off

A higher limit changes no outcome but that of programs that are nested too deeply, and above twice
the length of a text there are none.

* `Tree.UnitsAlike.eq`: programs that are alike on the same lines are equal.
* `Roomy`, **`spared_program`**: a program is not stopped if there is room for its tokens.
* `length_upcoming_le`: a text has no more tokens than characters.
* **`limit_cuts_off`**: both halves, for whole parses.
-/

namespace ExprLang

/-! ## Equal programs -/

theorem Token.Alike.eq {a b : Token} (h : a.Alike Eq b) : a = b := by
  obtain ⟨kind, value, line⟩ := a
  obtain ⟨rfl, rfl, rfl⟩ := h
  rfl

theorem Failure.Alike.eq {e e' : Failure} (h : e.Alike Eq e') : e = e' := by
  cases h with
  | @refused d d' same =>
    obtain ⟨cause, line⟩ := d
    obtain ⟨rfl, rfl⟩ := same
    rfl
  | unreadable => rfl

theorem Tree.Alike.eq {x y : Tree} (h : x.Alike Eq y) : x = y := by
  induction h with
  | literal token | reference token => rw [token.eq]
  | unary operator _ ih => rw [operator.eq, ih]
  | binary operator _ _ ih ih' | assignment operator _ _ ih ih' => rw [operator.eq, ih, ih']

theorem Tree.UnitsAlike.eq {xs ys : List Tree} (h : UnitsAlike Eq xs ys) : xs = ys := by
  induction h with
  | nil => rfl
  | expression same _ ih => rw [same.eq, ih]
  | bare name _ ih => rw [name.eq, ih]
  | initialized operator name value _ ih => rw [operator.eq, name.eq, value.eq, ih]
  | block _ _ ih ih' => rw [ih, ih']

/-! ## Tokens and characters -/

namespace Scanner

theorem Spells.ne_nil {v : Vocabulary} {raw rest : List Char} {kind : Kind} {value : String}
    (h : Spells v raw rest kind value) : raw ≠ [] := by
  cases h with
  | word | operator => exact List.cons_ne_nil _ _
  | number written =>
    rintro rfl
    generalize hcs : ([] : List Char) = cs at written
    cases written with
    | plain mantissa =>
      cases mantissa with
      | whole nonempty => exact nonempty hcs.symm
      | pointed => simp at hcs
    | scientific => simp at hcs

/-- **A text has no more tokens than characters.** -/
theorem length_upcoming_le (v : Vocabulary) {s : Scanner} {cs : List Char}
    (hs : s.cursor.Holds cs) : (s.upcoming v).1.length ≤ cs.length := by
  fun_induction Scanner.upcoming v s generalizing cs with
  | case1 | case2 => exact Nat.zero_le _
  | case3 s token t hnext ih =>
    obtain ⟨blanks, others, rfl, -, h⟩ := next?_of_holds (v := v) hs
    rw [hnext] at h
    obtain ⟨rest, ⟨raw, rfl, hspells, -⟩, ht, -⟩ := h
    have hraw := List.length_pos_iff.mpr hspells.ne_nil
    have hrest := ih ht
    simp only [List.length_append]
    unfold Upcoming.cons
    split
    · exact Nat.zero_le _
    · rw [List.length_cons]
      omega

end Scanner

namespace Grammar

variable {g : Grammar} {s t : ParseState}

/-! ## Programs with room for their tokens -/

theorem toCome_le_of_advance {tokens : List Token} (h : Advance g s tokens t)
    (hne : ∀ token ∈ tokens, token.kind ≠ .eof) : toCome g t ≤ toCome g s := by
  rw [toCome_of_takes h.takes hne]
  exact Nat.le_add_left _ _

theorem FormsRun.toCome_le (hg : g.IsStandard) {passage : Passage} {room : Nat}
    {trees : List Tree} (h : FormsRun g passage room s t trees) : toCome g t ≤ toCome g s := by
  obtain ⟨tokens, ht, -, hf⟩ := h
  rw [toCome_of_takes ht (hf.derives hg).ne_eof]
  exact Nat.le_add_left _ _

theorem PassageRun.toCome_le (hg : g.IsStandard) {passage : Passage} {room : Nat}
    {kept : Option Tree → Option Tree} {r : Option Tree}
    (h : PassageRun g passage room s t kept r) : toCome g t ≤ toCome g s := by
  rcases h with ⟨_, -, h⟩ | ⟨-, h⟩
  · exact h.toCome_le hg
  · exact toCome_le_of_advance h (List.forall_mem_nil _)

/-- There are two levels for each token to come, and one more. -/
structure Roomy (g : Grammar) (room : Nat) (s : ParseState) : Prop where
  low : toCome g s ≤ g.maxDepth
  deep : 2 * toCome g s < room

theorem Roomy.of_le {room : Nat} (h : Roomy g room s) (hle : toCome g t ≤ toCome g s) :
    Roomy g room t := by
  obtain ⟨low, deep⟩ := h
  exact ⟨by omega, by omega⟩

theorem Roomy.of_advance {room : Nat} (h : Roomy g room s) {tokens : List Token}
    (ht : Advance g s tokens t) (hne : ∀ token ∈ tokens, token.kind ≠ .eof) : Roomy g room t :=
  h.of_le (toCome_le_of_advance ht hne)

theorem Roomy.of_kind {room : Nat} (h : Roomy g room s) {token : Token} (ht : Advance g s [token] t)
    (hk : token.kind ≠ .eof) : Roomy g room t :=
  h.of_advance ht (List.forall_mem_singleton.mpr hk)

theorem Roomy.of_look {room : Nat} (h : Roomy g room s) (ht : Advance g s [] t) : Roomy g room t :=
  h.of_advance ht (List.forall_mem_nil _)

variable {room : Nat}

theorem spared_expressionIn (hg : g.IsStandard) (h : Roomy g room s) :
    Spared (g.expressionIn room) s := by
  refine .bind ((spared_nested hg room).2 none false s h.low h.deep) fun r u _ => ?_
  split
  · exact .bind (.map (spared_expectOr nofun)) fun _ _ _ => .map (failsBy_typed lenient_spared)
  · exact .bind (failsBy_accept lenient_spared) fun _ _ _ => .pure

theorem spared_typeClause : Spared g.typeClause s := by
  refine .bind (failsBy_accept lenient_spared) fun r u _ => ?_
  split
  · exact .pure
  · refine .bind (spared_expectOr nofun) fun name w _ => ?_
    split
    · exact .pure
    · exact spared_refuse nofun

theorem spared_initializerIn (hg : g.IsStandard) {operator : Token} (h : Roomy g room s) :
    Spared (g.initializerIn room operator) s := by
  refine .bind (spared_expressionIn hg h) fun r u _ => ?_
  split
  · split
    · exact spared_refuse nofun
    · exact .pure
  · exact spared_refuse nofun

theorem spared_declarationIn (hg : g.IsStandard) {first : Token}
    (ha : s.tokens.ahead = some first) (starts : first.kind ∈ declaratorKinds)
    (h : Roomy g room s) : Spared (g.declarationIn room) s := by
  refine .bind spared_consume fun keyword u hc => .bind (spared_expectOr nofun) fun name w he =>
    .bind spared_typeClause fun declared x ht => .bind .modify fun _ y hn =>
      .bind (failsBy_declare lenient_spared) fun _ z hd => ?_
  obtain rfl := eq_of_consume ha hc
  have hu := h.of_kind (advance_of_consume hc) fun he => absurd (he ▸ starts) (by decide)
  obtain ⟨hname, hw⟩ := advance_of_expectOr he
  have hw := hu.of_kind hw (by rw [hname]; decide)
  obtain ⟨clause, hx, hclause⟩ := clause_of_typeClause ht
  have hy := (hw.of_advance hx hclause.derives.ne_eof).of_look (advance_of_note hn)
  obtain ⟨scopes, -, rfl⟩ := declare_eq_ok hd
  refine .bind (failsBy_accept lenient_spared) fun r p hr => ?_
  rcases advance_of_accept hr with ⟨operator, rfl, hk, hp⟩ | ⟨rfl, -⟩
  · have hp := Roomy.of_kind (s := { y with scopes := scopes }) ⟨hy.low, hy.deep⟩ hp
      (by rw [hk]; decide)
    refine .bind (spared_initializerIn hg hp) fun value q _ => ?_
    rcases hunify : unify declared value.type? operator.line with d | type
    · exact .throw (lenient_spared.semantic _ q (category_of_unify hunify))
    · exact .bind .modify fun _ _ _ => .pure
  · cases declared with
    | none => exact spared_refuse nofun
    | some type => exact .bind (.map (spared_expectOr nofun)) fun _ _ _ => .pure

theorem spared_statementIn (hg : g.IsStandard) (h : Roomy g room s) :
    Spared (g.statementIn room) s := by
  refine .bind spared_currentKind fun kind u hk => ?_
  obtain ⟨first, rfl, hu, ha⟩ := advance_of_currentKind hk
  have h := h.of_look hu
  split
  · next hd => exact .map (spared_declarationIn hg ha ((contains_declarators hg _).mp hd) h)
  · exact spared_expressionIn hg h

/-- A block costs a token, and goes one level down. -/
theorem spared_blockPart (hg : g.IsStandard) (room : Nat) :
    ∀ s, Roomy g room s → Spared (g.blockPart room).run s := by
  induction room with
  | zero => exact fun s h => absurd h.deep (Nat.not_lt_zero _)
  | succ room ih =>
    intro s h
    refine .bind (failsBy_accept lenient_spared) fun r u hr => ?_
    rcases advance_of_accept hr with ⟨opening, rfl, hk, hu⟩ | ⟨rfl, -⟩
    · have hcount := toCome_of_take hu (by rw [hk]; decide)
      have hroomy : Roomy g room u := by
        obtain ⟨low, deep⟩ := h
        exact ⟨by omega, by omega⟩
      refine .bind .modify fun _ w hn => ?_
      obtain rfl := modify_eq_ok_iff.mp hn
      refine .bind (.bind .modify fun _ x hd => failsBy_inNewScope ?_) fun _ _ _ =>
        .bind .modify fun _ _ _ => .pure
      obtain rfl := modify_eq_ok_iff.mp hd
      refine .bind (.map (FailsBy.collect (P := Roomy g room) ⟨hroomy.low, hroomy.deep⟩ ?_ ?_))
        fun _ _ _ => .bind (.map (spared_expectOr nofun)) fun _ _ _ =>
          .bind .modify fun _ _ _ => .get .pure
      · intro t ht
        refine .bind (spared_statementIn hg ht) fun r v hv =>
          .bind (ih v (ht.of_le ((forms_of_statementIn hv).toCome_le hg))) fun _ _ _ => ?_
        split <;> exact .pure
      · intro t trees v ht hv
        obtain ⟨r, x, hx, hv⟩ := bind_eq_ok_iff.mp hv
        obtain ⟨r', y, hy, hv⟩ := bind_eq_ok_iff.mp hv
        have hround := (ht.of_le ((forms_of_statementIn hx).toCome_le hg)).of_le
          ((forms_of_blockIn hy).toCome_le hg)
        split at hv
        · exact (pure_eq_ok_iff.mp hv).2 ▸ hround
        · exact (pure_eq_ok_iff.mp hv).2 ▸ hround
    · exact .pure

theorem spared_unitIn (hg : g.IsStandard) (h : Roomy g room s) : Spared (g.unitIn room) s := by
  refine .bind (spared_statementIn hg h) fun r u hs => ?_
  have hu := h.of_le ((forms_of_statementIn hs).toCome_le hg)
  split
  · exact .pure
  · refine .bind (spared_blockPart hg room u hu) fun r w _ => ?_
    split
    · exact .pure
    · exact .bind spared_lookahead fun _ _ _ => spared_refuse nofun

/-- **A program is not nested too deeply** if there is room for its tokens. -/
theorem spared_program (hg : g.IsStandard) (h : Roomy g g.maxDepth s) : Spared g.program s := by
  refine .bind (FailsBy.collect (P := Roomy g g.maxDepth) h (fun t ht => ?_) ?_) fun _ _ _ =>
    .get (.bind .modify fun _ _ _ => .pure)
  · refine .bind spared_currentKind fun kind u hk => ?_
    obtain ⟨first, -, hu, -⟩ := advance_of_currentKind hk
    have hu := ht.of_look hu
    split
    · exact .pure
    · rw [Twin.reset_topLevelUnit]
      refine .bind .modify fun _ w hw => .map (failsBy_notingFailure ?_)
      obtain rfl := modify_eq_ok_iff.mp hw
      exact spared_unitIn hg ⟨hu.low, hu.deep⟩
  · intro t unit u ht hu
    obtain ⟨tokens, hu, hf⟩ := forms_of_programStep hu
    refine ht.of_le ?_
    rw [toCome_of_takes hu (hf.derives hg).ne_eof]
    exact Nat.le_add_left _ _

/-! ## Parses -/

theorem parse_eq_error_iff {source : Source} {e : Failure} :
    g.parse source = .error e ↔ ∃ t, g.parseRun source = .error e t := by
  unfold parse
  rcases g.parseRun source with ⟨units, t⟩ | ⟨e', t⟩ <;> simp

/-- With a higher limit a parse has the same outcome, if it was not the limit that ended it. -/
theorem parse_of_le {limit : Nat} (h : g.maxDepth ≤ limit) (source : Source) :
    (∀ units, g.parse source = .ok units →
      { g with maxDepth := limit }.parse source = .ok units) ∧
    ∀ e, g.parse source = .error e → ¬e.TooDeep →
      { g with maxDepth := limit }.parse source = .error e := by
  have hm := (g.limitTwin h).parseRun rfl (s := source) (t := source) rfl
  unfold parse
  revert hm
  generalize g.parseRun source = r
  generalize { g with maxDepth := limit }.parseRun source = r'
  intro hm
  cases hm with
  | ok units _ => exact ⟨fun _ h => units.eq ▸ h, nofun⟩
  | failed same => exact ⟨nofun, fun _ h _ => same.eq ▸ h⟩
  | cut early =>
    obtain ⟨line, rfl⟩ := early
    refine ⟨nofun, fun e h hdeep => absurd ?_ hdeep⟩
    cases h
    exact ⟨_, line, rfl⟩

/-- **No text is nested too deeply** for a limit of twice its length, and one more. -/
theorem not_tooDeep_of_length_le (typing : TypingTable) {text : String} {maxDepth : Nat}
    (h : 2 * text.length + 1 ≤ maxDepth) {e : Failure}
    (he : (standard .standard typing maxDepth).parse (.ofString text) = .error e) :
    ¬e.TooDeep := by
  obtain ⟨t, ht⟩ := parse_eq_error_iff.mp he
  have hcount : toCome (standard .standard typing maxDepth)
      ((standard .standard typing maxDepth).start (.ofString text)) ≤ text.length := by
    have := Scanner.length_upcoming_le .standard (s := .ofSource (.ofString text))
      (Cursor.holds_ofSource text)
    rwa [String.length_toList] at this
  have hmax : (standard .standard typing maxDepth).maxDepth = maxDepth := rfl
  exact spared_program (isStandard_standard typing maxDepth) ⟨by omega, by omega⟩ _ _ ht

/-- **The nesting limit only cuts off.** In the standard language none above twice the length of a
text does. -/
theorem nesting_limit_cuts_off :
    (∀ (vocabulary : Vocabulary) (typing : TypingTable) (low high : Nat) (source : Source),
      low ≤ high →
        (∀ units, (standard vocabulary typing low).parse source = .ok units →
          (standard vocabulary typing high).parse source = .ok units) ∧
        ∀ e, (standard vocabulary typing low).parse source = .error e → ¬e.TooDeep →
          (standard vocabulary typing high).parse source = .error e) ∧
    ∀ (typing : TypingTable) (text : String) (maxDepth : Nat), 2 * text.length + 1 ≤ maxDepth →
      (∀ e, (standard .standard typing maxDepth).parse (.ofString text) = .error e →
        ¬e.TooDeep) ∧
      (standard .standard typing maxDepth).parse (.ofString text) =
        (standard .standard typing (2 * text.length + 1)).parse (.ofString text) := by
  have hlimits : ∀ (vocabulary : Vocabulary) (typing : TypingTable) (low high : Nat)
      (source : Source), low ≤ high →
        (∀ units, (standard vocabulary typing low).parse source = .ok units →
          (standard vocabulary typing high).parse source = .ok units) ∧
        ∀ e, (standard vocabulary typing low).parse source = .error e → ¬e.TooDeep →
          (standard vocabulary typing high).parse source = .error e :=
    fun vocabulary typing low _ source h =>
      parse_of_le (g := standard vocabulary typing low) h source
  refine ⟨hlimits, fun typing text maxDepth h =>
    ⟨fun e => not_tooDeep_of_length_le typing h, ?_⟩⟩
  obtain ⟨hok, herror⟩ := hlimits .standard typing _ _ (.ofString text) h
  rcases hp : (standard .standard typing (2 * text.length + 1)).parse (.ofString text) with
    e | units
  · exact herror e hp (not_tooDeep_of_length_le typing (Nat.le_refl _) hp)
  · exact hok units hp

theorem nesting_limit_cuts_off_signed :
    ∃ units e,
      (standard .standard .standard 5).parse (.ofString "-(1);") = .ok units ∧
      (standard .standard .standard 256).parse (.ofString "-(1);") = .ok units ∧
      (standard .standard .standard 5).parse (.ofString "-(1;") = .error e ∧ ¬e.TooDeep ∧
      (standard .standard .standard 256).parse (.ofString "-(1;") = .error e ∧
      (standard .standard .standard 256).parse (.ofString "-(1);") =
        (standard .standard .standard (2 * "-(1);".length + 1)).parse (.ofString "-(1);") := by
  obtain ⟨units, hu⟩ := exists_of_isOk <|
    show ((standard .standard .standard 5).parse (.ofString "-(1);")).isOk = true by decide +kernel
  obtain ⟨t, ht⟩ := exists_of_failureOf <|
    show failureOf ((standard .standard .standard 5).parseRun (.ofString "-(1;")) =
      some (.refused ⟨.missingToken ")", 1⟩) by decide +kernel
  have he := parse_eq_error_iff.mpr ⟨t, ht⟩
  have hdeep : ¬(Failure.refused ⟨.missingToken ")", 1⟩).TooDeep :=
    Failure.not_tooDeep_refused nofun
  have hlimits := nesting_limit_cuts_off.1 .standard .standard 5 256
  exact ⟨units, _, hu, (hlimits _ (by decide)).1 units hu, he, hdeep,
    (hlimits _ (by decide)).2 _ he hdeep,
    (nesting_limit_cuts_off.2 .standard "-(1);" 256 (by decide)).2⟩

end Grammar

end ExprLang
