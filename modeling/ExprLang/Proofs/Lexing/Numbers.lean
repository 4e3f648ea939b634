import ExprLang.Proofs.Lexing.Partition

/-!
# Numbers

What the rule for numbers makes of the characters in front of it, in any vocabulary.

* `Heads.unique`, `Signed.unique`: the number and the sign that characters start with.
* `GoesOn`, `NumberReads`: what may come of a number, and of any characters.
* `NumberReads.unique`: it is told by the characters alone.
* **`number?_of_holds`**: the rule comes to just that.
-/

namespace ExprLang

namespace Cursor

variable {p : Char → Bool} {xs ys rest rest' : List Char}

theorem takeWhile_append_of_stops (hx : ∀ c ∈ xs, p c = true) (hr : Stops p rest) :
    (xs ++ rest).takeWhile p = xs := by
  rw [List.takeWhile_append_of_pos hx]
  cases rest with
  | nil => exact List.append_nil _
  | cons c rest =>
    have hc : ¬p c = true := by simp [hr c rfl]
    rw [List.takeWhile_cons_of_neg hc, List.append_nil]

theorem Stops.unique (hr : Stops p rest) (hr' : Stops p rest') (hx : ∀ c ∈ xs, p c = true)
    (hy : ∀ c ∈ ys, p c = true) (h : xs ++ rest = ys ++ rest') : xs = ys ∧ rest = rest' := by
  have hrun := congrArg (List.takeWhile p) h
  rw [takeWhile_append_of_stops hx hr, takeWhile_append_of_stops hy hr'] at hrun
  subst hrun
  exact ⟨rfl, List.append_cancel_left h⟩

end Cursor

namespace Scanner

open Cursor

variable {v : Vocabulary} {m n : Numeral} {cs rest rest' : List Char}

theorem stops_point : Stops Char.isDigit ('.' :: rest) := by
  rintro _ ⟨⟩
  rfl

/-- **The number that characters start with is determined.** -/
theorem Numeral.Heads.unique (hm : m.Heads cs rest) (hn : n.Heads cs rest') :
    m = n ∧ rest = rest' := by
  have h := hm.written.symm.trans hn.written
  obtain ⟨whole, fraction⟩ := m
  obtain ⟨whole', fraction'⟩ := n
  unfold Numeral.raw at h
  rw [List.append_assoc, List.append_assoc] at h
  cases fraction with
  | none =>
    cases fraction' with
    | none =>
      obtain ⟨hw, rfl⟩ :=
        hm.longest.1.unique hn.longest.1 hm.decimal.whole hn.decimal.whole h
      obtain rfl : whole = whole' := String.toList_inj.mp hw
      exact ⟨rfl, rfl⟩
    | some digits =>
      obtain ⟨-, rfl⟩ := hm.longest.1.unique stops_point hm.decimal.whole hn.decimal.whole h
      exact absurd rfl (hm.longest.2 rfl)
  | some digits =>
    cases fraction' with
    | none =>
      obtain ⟨-, rfl⟩ := stops_point.unique hn.longest.1 hm.decimal.whole hn.decimal.whole h
      exact absurd rfl (hn.longest.2 rfl)
    | some digits' =>
      obtain ⟨hw, hpoint⟩ := stops_point.unique stops_point hm.decimal.whole hn.decimal.whole h
      obtain ⟨hf, rfl⟩ := hm.longest.1.unique hn.longest.1 (hm.decimal.fraction _ rfl)
        (hn.decimal.fraction _ rfl) (List.cons.inj hpoint).2
      obtain rfl : whole = whole' := String.toList_inj.mp hw
      obtain rfl : digits = digits' := String.toList_inj.mp hf
      exact ⟨rfl, rfl⟩

theorem Numeral.Heads.starts (h : n.Heads cs rest) : ¬StartsNoNumber cs := by
  rintro ⟨hdigit, hpoint⟩
  obtain ⟨whole, fraction⟩ := n
  rw [h.written, Numeral.raw, List.append_assoc] at hdigit hpoint
  rcases hw : whole.toList with _ | ⟨c, digits⟩
  · have hempty : whole = "" := String.toList_eq_nil_iff.mp hw
    obtain ⟨digits, rfl⟩ := Option.isSome_iff_exists.mp (h.visible.resolve_left (absurd hempty))
    rw [hw] at hpoint
    exact hpoint rfl
  · rw [hw] at hdigit
    have hc := h.decimal.whole c (hw ▸ List.mem_cons_self)
    rw [hdigit c rfl] at hc
    cases hc

theorem Signed.unique {mark mark' : String} (h : Signed mark cs rest)
    (h' : Signed mark' cs rest') : mark = mark' ∧ rest = rest' := by
  cases h with
  | plus =>
    cases h' with
    | plus => exact ⟨rfl, rfl⟩
    | unsigned noPlus _ => exact absurd rfl noPlus
  | minus =>
    cases h' with
    | minus => exact ⟨rfl, rfl⟩
    | unsigned _ noMinus => exact absurd rfl noMinus
  | unsigned noPlus noMinus =>
    cases h' with
    | plus => exact absurd rfl noPlus
    | minus => exact absurd rfl noMinus
    | unsigned _ _ => exact ⟨rfl, rfl⟩

/-! ## What comes of characters -/

/-- What the rule for numbers can come to. -/
inductive Outcome where
  /-- There is no number. -/
  | absent
  /-- There is a literal, with these characters behind it. -/
  | literal (kind : Kind) (value : String) (rest : List Char)
  /-- What was read so far goes on in a way that no number does. -/
  | invalid (after : String)

/-- `GoesOn v m behind outcome`: what comes of the number `m` with these characters behind it. -/
inductive GoesOn (v : Vocabulary) (m : Numeral) : List Char → Outcome → Prop
  | scientific {behind exponent rest : List Char} {mark : String} {x : Numeral}
      (signed : Signed mark behind exponent) (power : x.Heads exponent rest) :
      GoesOn v m ('e' :: behind) (.literal .floatLiteral (m.text ++ "e" ++ mark ++ x.text) rest)
  | unfinished {behind exponent : List Char} {mark : String}
      (signed : Signed mark behind exponent) (missing : ∀ x rest, ¬Numeral.Heads x exponent rest) :
      GoesOn v m ('e' :: behind) (.invalid (m.text ++ "e" ++ mark))
  | plain {rest : List Char} (noExponent : rest.head? ≠ some 'e')
      (ended : ∀ c ∈ rest.head?, endsNumber v c = true) :
      GoesOn v m rest (.literal m.kind m.text rest)
  | unended {c : Char} {others : List Char} (noExponent : c ≠ 'e')
      (unended : endsNumber v c = false) : GoesOn v m (c :: others) (.invalid m.text)

/-- `NumberReads v cs outcome`: what comes of the characters. -/
inductive NumberReads (v : Vocabulary) (cs : List Char) : Outcome → Prop
  | absent (missing : ∀ n rest, ¬Numeral.Heads n cs rest) : NumberReads v cs .absent
  | present {m : Numeral} {behind : List Char} {outcome : Outcome} (mantissa : m.Heads cs behind)
      (goesOn : GoesOn v m behind outcome) : NumberReads v cs outcome

/-- An `e` begins an exponent, and then it does not matter what ends a number. -/
theorem GoesOn.unique {o o' : Outcome} (h : GoesOn v m cs o) (h' : GoesOn v m cs o') : o = o' := by
  cases h with
  | scientific signed power =>
    cases h' with
    | scientific signed' power' =>
      obtain ⟨rfl, rfl⟩ := signed.unique signed'
      obtain ⟨rfl, rfl⟩ := power.unique power'
      rfl
    | unfinished signed' missing' =>
      obtain ⟨rfl, rfl⟩ := signed.unique signed'
      exact absurd power (missing' _ _)
    | plain noExponent' _ | unended noExponent' _ => exact absurd rfl noExponent'
  | unfinished signed missing =>
    cases h' with
    | scientific signed' power' =>
      obtain ⟨rfl, rfl⟩ := signed.unique signed'
      exact absurd power' (missing _ _)
    | unfinished signed' _ => rw [(signed.unique signed').1]
    | plain noExponent' _ | unended noExponent' _ => exact absurd rfl noExponent'
  | plain noExponent ended =>
    cases h' with
    | scientific | unfinished => exact absurd rfl noExponent
    | plain => rfl
    | unended _ unended' =>
      rw [ended _ rfl] at unended'
      cases unended'
  | unended noExponent unended =>
    cases h' with
    | scientific | unfinished => exact absurd rfl noExponent
    | plain _ ended' =>
      rw [ended' _ rfl] at unended
      cases unended
    | unended => rfl

/-- **What comes of characters is determined.** -/
theorem NumberReads.unique {o o' : Outcome} (h : NumberReads v cs o) (h' : NumberReads v cs o') :
    o = o' := by
  cases h with
  | absent missing =>
    cases h' with
    | absent _ => rfl
    | present mantissa' _ => exact absurd mantissa' (missing _ _)
  | present mantissa goesOn =>
    cases h' with
    | absent missing' => exact absurd mantissa (missing' _ _)
    | present mantissa' goesOn' =>
      obtain ⟨rfl, rfl⟩ := mantissa.unique mantissa'
      exact goesOn.unique goesOn'

/-! ## What the rule comes to -/

variable {line : UInt32}

theorem gives_goesOn (m : Numeral) (behind : List Char) :
    Gives (fun e => ∃ after, GoesOn v m behind (.invalid after) ∧
        e = .refused ⟨.invalidNumber after, line⟩)
      (numberToken v line m) line behind fun token rest =>
        GoesOn v m behind (.literal token.kind token.value rest) ∧ token.line = line := by
  refine .bind (gives_accept 'e') ?_
  rintro _ _ (⟨rfl, rfl⟩ | ⟨rfl, he, rfl⟩)
  · rw [if_pos rfl]
    refine .bind gives_sign ?_
    rintro mark exponent hsigned
    refine .bind gives_numeral? ?_
    rintro (_ | x) rest h
    · exact gives_refuse ⟨_, .unfinished hsigned fun x rest hx => hx.starts h.2, rfl⟩
    · exact .pure ⟨.scientific hsigned h, rfl⟩
  · rw [if_neg (by decide)]
    refine .bind gives_peek ?_
    rintro _ _ ⟨rfl, rfl⟩
    rcases behind with _ | ⟨c, others⟩
    · exact .pure ⟨.plain he nofun, rfl⟩
    · have hc : c ≠ 'e' := fun hc => he (congrArg some hc)
      cases hends : endsNumber v c with
      | true =>
        rw [if_pos (show Option.all (endsNumber v) (c :: others).head? = true from hends)]
        exact .pure ⟨.plain he (by rintro _ ⟨⟩; exact hends), rfl⟩
      | false =>
        rw [if_neg (show ¬Option.all (endsNumber v) (c :: others).head? = true by simp [hends])]
        exact gives_refuse ⟨_, .unended hc hends, rfl⟩

theorem gives_numberReads (cs : List Char) :
    Gives (fun e => ∃ after, NumberReads v cs (.invalid after) ∧
        e = .refused ⟨.invalidNumber after, line⟩)
      (number? v) line cs fun r rest =>
        match r with
        | some token => NumberReads v cs (.literal token.kind token.value rest) ∧ token.line = line
        | none => cs = rest ∧ StartsNoNumber cs := by
  refine gives_get fun s hs => .bind gives_numeral? ?_
  rintro (_ | m) behind h
  · exact .pure h
  · rw [hs]
    refine .map ((gives_goesOn m behind).mono_error ?_) ?_
    · rintro _ ⟨after, hgoes, rfl⟩
      exact ⟨after, .present h hgoes, rfl⟩
    · exact fun token rest hgoes => ⟨.present h hgoes.1, hgoes.2⟩

/-- What the outcome says of a run of the rule in front of `cs`. -/
def Outcome.Describes (cs : List Char) (line : UInt32) :
    Outcome → EStateM.Result Failure Scanner (Option Token) → Prop
  | .absent, .ok r t => r = none ∧ t.cursor.Holds cs ∧ t.line = line
  | .literal kind value rest, .ok r t =>
    r = some ⟨kind, value, line⟩ ∧ t.cursor.Holds rest ∧ t.line = line
  | .invalid after, .error e _ => e = .refused ⟨.invalidNumber after, line⟩
  | _, _ => False

/-- **Numbers follow their grammar exactly.** Just one outcome is possible in front of the
characters, and the rule for numbers comes to that. -/
theorem number?_of_holds (v : Vocabulary) (s : Scanner) (cs : List Char)
    (h : s.cursor.Holds cs) :
    ∃ outcome, NumberReads v cs outcome ∧ (∀ other, NumberReads v cs other → other = outcome) ∧
      outcome.Describes cs s.line (number? v s) := by
  have hgives := gives_numberReads (v := v) cs s h rfl
  rcases hr : number? v s with ⟨_ | token, t⟩ | ⟨e, t⟩ <;> rw [hr] at hgives
  · obtain ⟨_, ht, hline, rfl, hnone⟩ := hgives
    have hreads : NumberReads v cs .absent := .absent fun n rest hn => hn.starts hnone
    exact ⟨_, hreads, fun _ hother => hother.unique hreads, rfl, ht, hline⟩
  · obtain ⟨rest, ht, hline, hreads, htoken⟩ := hgives
    exact ⟨_, hreads, fun _ hother => hother.unique hreads, htoken ▸ rfl, ht, hline⟩
  · obtain ⟨after, hreads, rfl⟩ := hgives
    exact ⟨_, hreads, fun _ hother => hother.unique hreads, rfl⟩

/-- In a number with an exponent any run of digits may be missing. -/
theorem number?_of_holds_points :
    (Scanner.ofSource (.ofString "1.e-.5x")).cursor.Holds "1.e-.5x".toList ∧
    ∃ outcome, NumberReads .standard "1.e-.5x".toList outcome ∧
      (∀ other, NumberReads .standard "1.e-.5x".toList other → other = outcome) ∧
      outcome.Describes "1.e-.5x".toList 1
        (number? .standard (Scanner.ofSource (.ofString "1.e-.5x"))) :=
  ⟨holds_ofSource _, number?_of_holds _ _ _ (holds_ofSource _)⟩

end Scanner

end ExprLang
