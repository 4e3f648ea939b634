import ExprLang.Proofs.Compose.Composed

/-!
# The effect of a unit on what follows

Only a declaration in the global scope has an effect on the units behind it. Blocks, with all that
is declared and assigned in them, and expression statements have none.

* `Tree.declares`: the units that declare; `Forms.behind_eq`: without them the scopes stay the same.
* `Rounds.follows`: the program in a text behind rounds is the one in that text by itself.
* `parse_blanks_append`: blanks in front of a text.
* **`parse_insert`**: what is put between two texts without declaring anything is found between
  their units, and all else stays as it was.
-/

namespace ExprLang

/-- Whether a unit is a declaration, with an initializer or without. -/
def Tree.declares : Tree → Bool
  | .declaration .. | .assignment _ _ (.declaration ..) _ => true
  | _ => false

namespace Grammar

variable {g : Grammar} {s s' t u : ParseState} {units others : List (Option Tree)}
  {typing : TypingTable} {maxDepth : Nat}

/-- **A passage that declares nothing** leaves the scopes as they are. A block closes the scope that
it opens, and an expression declares nothing. -/
theorem Forms.behind_eq {passage : Passage} {room : Nat} {before behind : Scopes}
    {tokens : List Token} {trees : List Tree}
    (h : Forms g passage room before tokens trees behind)
    (hd : ∀ tree ∈ trees, tree.declares = false) : behind = before := by
  induction h with
  | semicolon | expression | block | nil => rfl
  | bare | initialized => cases hd _ List.mem_cons_self
  | cons _ _ _ ih ih' =>
    rw [List.forall_mem_append] at hd
    exact (ih' hd.2).trans (ih hd.1)

/-! ## Rounds one after the other -/

theorem Rounds.scopes_eq (h : Rounds g s units t)
    (hd : ∀ tree ∈ units.filterMap id, tree.declares = false) : t.scopes = s.scopes := by
  induction h with
  | refl => rfl
  | round first _ ih =>
    rw [filterMap_id_cons, List.forall_mem_append] at hd
    obtain ⟨_, -, hf⟩ := forms_of_programStep first
    exact (ih hd.2).trans (hf.behind_eq hd.1)

/-- **The program in a text behind rounds** is the one that the text by itself has in their scopes.
The state `b` is at the beginning of that text, `n` lines earlier. -/
theorem Rounds.follows {b : ParseState} {n : UInt32} {cs more : List Char}
    (h : Rounds (standard .standard typing maxDepth) s units t)
    (hlast : (standard .standard typing maxDepth).programStep t = .ok none u)
    (hs : s.tokens.ahead = none) (hlevel : Level s s')
    (hline : s'.tokens.scanner.line = s.tokens.scanner.line)
    (hcs : s.tokens.scanner.cursor.Holds cs) (hmore : s'.tokens.scanner.cursor.Holds (cs ++ more))
    (hb : b.tokens.scanner.cursor.Holds more) (hahead : b.tokens.ahead = none)
    (hn : lineBehind s.tokens.scanner.line cs = b.tokens.scanner.line + n)
    (hscopes : b.scopes = t.scopes) :
    Follows n (units.filterMap id) ((standard .standard typing maxDepth).program b)
      ((standard .standard typing maxDepth).program s') := by
  obtain ⟨rest, t', hrest, hcount, hrounds, hlevel', ht', hline'⟩ :=
    h.append hs hlevel hline hcs hmore
  have hstands : StandsLater n rest more b t' :=
    ⟨hb, blank_of_programStep_none hlast (h.ahead hs) hrest, ht',
      (congrArg (lineBehind · _) hline').trans (hcount.trans hn), hahead,
      hlevel'.ahead.trans (h.ahead hs), hscopes.trans hlevel'.scopes.symm⟩
  exact hstands.program.behind hrounds.program

/-! ## Whole texts -/

theorem level_start (first second : Source) : Level (g.start first) (g.start second) :=
  ⟨rfl, rfl, rfl, rfl⟩

theorem holds_start (text : String) :
    (g.start (.ofString text)).tokens.scanner.cursor.Holds text.toList :=
  Cursor.holds_ofSource text

theorem holds_start_append (first second : String) :
    (g.start (.ofString (first ++ second))).tokens.scanner.cursor.Holds
      (first.toList ++ second.toList) := by
  rw [← String.toList_append]
  exact holds_start (first ++ second)

theorem rounds_of_parse {source : Source} {trees : List Tree} (h : g.parse source = .ok trees) :
    ∃ units t u global, Rounds g (g.start source) units t ∧ g.programStep t = .ok none u ∧
      trees = units.filterMap id ∧ t.scopes = ⟨global, []⟩ := by
  obtain ⟨_, hrun⟩ := exists_run h
  obtain ⟨units, t, u, hrounds, hlast, rfl, -⟩ := exists_rounds hrun
  have henclosing : t.scopes.enclosing = [] := hrounds.enclosing
  exact ⟨units, t, u, t.scopes.current, hrounds, hlast, rfl, by rw [← henclosing]⟩

theorem Follows.parse_eq {source : Source} {front : List Tree} {n : UInt32}
    {r : EStateM.Result Failure ParseState (List Tree)} :
    Follows n front r (g.program (g.start source)) →
      g.parse source =
        match r with
        | .ok trees _ => .ok (front ++ trees.map (Tree.shift n))
        | .error e _ => .error (e.shift n) := by
  unfold parse parseRun
  cases r with
  | ok =>
    rintro ⟨_, h, -⟩
    rw [h]
  | error =>
    rintro ⟨_, h⟩
    rw [h]

/-- **Blanks in front of a text** move its units, or what is wrong with it, to later lines. -/
theorem parse_blanks_append (g : Grammar) {blanks : String}
    (h : ∀ c ∈ blanks.toList, Unicode.isBlank c = true) (text : String) :
    g.parse (.ofString (blanks ++ text)) =
      match g.parse (.ofString text) with
      | .ok trees => .ok (trees.map (Tree.shift (UInt32.ofNat (blanks.toList.count '\n'))))
      | .error e => .error (e.shift (UInt32.ofNat (blanks.toList.count '\n'))) := by
  have hstands : StandsLater (UInt32.ofNat (blanks.toList.count '\n')) blanks.toList text.toList
      (g.start (.ofString text)) (g.start (.ofString (blanks ++ text))) :=
    ⟨holds_start text, h, holds_start_append blanks text, rfl, rfl, rfl, rfl⟩
  rw [hstands.program.parse_eq]
  unfold parse parseRun
  cases g.program (g.start (.ofString text)) with
  | ok trees => rfl
  | error e => rfl

/-- The rounds of the first of two texts, and those behind it when both are accepted together. -/
theorem Rounds.split {first part : String} {all : List Tree}
    (h : Rounds (standard .standard typing maxDepth)
      ((standard .standard typing maxDepth).start (.ofString first)) units t)
    (hboth : (standard .standard typing maxDepth).parse (.ofString (first ++ part)) = .ok all) :
    ∃ t' others u w, Level t t' ∧
      Rounds (standard .standard typing maxDepth)
        ((standard .standard typing maxDepth).start (.ofString (first ++ part))) units t' ∧
      Rounds (standard .standard typing maxDepth) t' others u ∧
      (standard .standard typing maxDepth).programStep u = .ok none w ∧
      all = units.filterMap id ++ others.filterMap id := by
  obtain ⟨_, t', -, -, hrounds, hlevel, -, -⟩ :=
    h.append rfl (level_start (.ofString first) (.ofString (first ++ part))) rfl (holds_start first)
      (holds_start_append first part)
  obtain ⟨_, hrun⟩ := exists_run hboth
  have hbehind := hrounds.program
  unfold parseRun at hrun
  rw [hrun] at hbehind
  rcases hr : (standard .standard typing maxDepth).program t' with ⟨trees, v⟩ | ⟨e, v⟩ <;>
    rw [hr] at hbehind
  · obtain ⟨_, heq, -⟩ := hbehind
    obtain ⟨others, u, w, hothers, hlast, rfl, -⟩ := exists_rounds hr
    cases heq
    exact ⟨t', others, u, w, hlevel, hrounds, hothers, hlast, rfl⟩
  · obtain ⟨_, heq⟩ := hbehind
    cases heq

theorem exists_of_any {source : Source} {p : List Tree → Bool}
    (h : (g.parse source).toOption.any p = true) :
    ∃ units, g.parse source = .ok units ∧ p units = true := by
  rcases hp : g.parse source with e | units <;> rw [hp] at h
  · cases h
  · exact ⟨units, rfl, h⟩

theorem units_append_of_parse {first part : String} {all front : List Tree}
    (h : (standard .standard typing maxDepth).parse (.ofString first) = .ok front)
    (hboth : (standard .standard typing maxDepth).parse (.ofString (first ++ part)) = .ok all) :
    ∃ xs, all = front ++ xs := by
  obtain ⟨found, t, u, global, hrounds, -, rfl, -⟩ := rounds_of_parse h
  obtain ⟨-, more, -, -, -, -, -, -, rfl⟩ := hrounds.split hboth
  exact ⟨_, rfl⟩

/-- **What declares nothing has no effect on what follows** but for its lines: `part` goes between
`first` and any `second`. -/
theorem parse_insert (typing : TypingTable) (maxDepth : Nat) (first part second : String)
    {units xs : List Tree}
    (h : (standard .standard typing maxDepth).parse (.ofString first) = .ok units)
    (hpart : (standard .standard typing maxDepth).parse (.ofString (first ++ part)) =
      .ok (units ++ xs))
    (hxs : ∀ x ∈ xs, x.declares = false) :
    match (standard .standard typing maxDepth).parse (.ofString (first ++ second)) with
    | .ok all => ∃ others, all = units ++ others ∧
        (standard .standard typing maxDepth).parse (.ofString (first ++ part ++ second)) =
          .ok (units ++ xs ++ others.map (Tree.shift (UInt32.ofNat (part.toList.count '\n')))) ∧
        Tree.sameAll others (others.map (Tree.shift (UInt32.ofNat (part.toList.count '\n')))) = true
    | .error e =>
        (standard .standard typing maxDepth).parse (.ofString (first ++ part ++ second)) =
          .error (e.shift (UInt32.ofNat (part.toList.count '\n'))) := by
  obtain ⟨found, t, u, global, hrounds, hlast, rfl, hglobal⟩ := rounds_of_parse h
  obtain ⟨t', more, v, w, hlevel, hfirst, hmore, hlast', heq⟩ := hrounds.split hpart
  obtain rfl := List.append_cancel_left heq
  -- `part` leaves the global scope of `first`, so `second` starts in the same one either way
  have hscopes : v.scopes = ⟨global, []⟩ :=
    (hmore.scopes_eq hxs).trans (hlevel.scopes.trans hglobal)
  have hb : ((standard .standard typing maxDepth).startIn global
      (.ofString second)).tokens.scanner.cursor.Holds second.toList := holds_start second
  have hplain := hrounds.follows hlast rfl (level_start _ (.ofString (first ++ second))) rfl
    (holds_start first) (holds_start_append first second) hb rfl rfl hglobal.symm
  have hinserted := (hfirst.trans hmore).follows hlast' rfl
    (level_start _ (.ofString (first ++ part ++ second))) rfl (holds_start (first ++ part))
    (holds_start_append (first ++ part) second) hb rfl rfl hscopes.symm
  rw [hplain.parse_eq, hinserted.parse_eq, String.toList_append, List.count_append,
    UInt32.ofNat_add]
  cases (standard .standard typing maxDepth).program
      ((standard .standard typing maxDepth).startIn global (.ofString second)) with
  | ok others =>
    refine ⟨_, rfl, ?_, Tree.sameAll_map_shift _ _⟩
    rw [List.filterMap_append, Tree.map_shift_map_shift]
  | error e => exact congrArg Except.error (Failure.shift_shift _ _ e).symm

/-- A block that shadows a constant, declares without a type and assigns. -/
def shadowing : String :=
  "\n\x7b var b = true; const a = b;\n \x7b var c = a; c = b; \x7d \x7d a = -b;\n"

theorem parse_insert_shadowing : ∃ units xs : List Tree,
    (standard .standard .standard 16).parse (.ofString "var a: Int = 1;\nconst b = a;") =
        .ok units ∧
      (standard .standard .standard 16).parse
          (.ofString ("var a: Int = 1;\nconst b = a;" ++ shadowing)) = .ok (units ++ xs) ∧
      (∀ x ∈ xs, x.declares = false) ∧
      match (standard .standard .standard 16).parse
          (.ofString ("var a: Int = 1;\nconst b = a;" ++ "a = b;\nb = a;")) with
      | .ok all => ∃ others, all = units ++ others ∧
          (standard .standard .standard 16).parse
              (.ofString ("var a: Int = 1;\nconst b = a;" ++ shadowing ++ "a = b;\nb = a;")) =
            .ok (units ++ xs ++
              others.map (Tree.shift (UInt32.ofNat (shadowing.toList.count '\n')))) ∧
          Tree.sameAll others
            (others.map (Tree.shift (UInt32.ofNat (shadowing.toList.count '\n')))) = true
      | .error e =>
          (standard .standard .standard 16).parse
              (.ofString ("var a: Int = 1;\nconst b = a;" ++ shadowing ++ "a = b;\nb = a;")) =
            .error (e.shift (UInt32.ofNat (shadowing.toList.count '\n'))) := by
  obtain ⟨units, hu, hlength⟩ := exists_of_any (p := fun units => units.length == 2) <|
    show ((standard .standard .standard 16).parse
      (.ofString "var a: Int = 1;\nconst b = a;")).toOption.any _ = true by decide +kernel
  obtain ⟨all, hall, hdeclares⟩ :=
    exists_of_any (p := fun all => (all.drop 2).all fun x => !x.declares) <|
      show ((standard .standard .standard 16).parse
        (.ofString ("var a: Int = 1;\nconst b = a;" ++ shadowing))).toOption.any _ = true
      by decide +kernel
  obtain ⟨xs, rfl⟩ := units_append_of_parse hu hall
  have hxs : ∀ x ∈ xs, x.declares = false := by
    rw [← eq_of_beq hlength, List.drop_left] at hdeclares
    simpa using hdeclares
  exact ⟨units, xs, hu, hall, hxs,
    parse_insert .standard 16 _ shadowing "a = b;\nb = a;" hu hall hxs⟩

end Grammar

end ExprLang
