import ExprLang.Token.Stream

/-!
# Upcoming tokens

What a token stream has yet to deliver, and what a run takes from it.

* `Scanner.upcoming`, `TokenStream.upcoming`: the tokens in front of the first `eof`, and how they
  end: with that `eof`, or with the failure of a scan.
* `upcoming_ended`: they are no `eof`, and what ends them without a failure is one.
* `upcoming_of_lookahead`, `upcoming_of_consume`: a look changes nothing, taking takes the first.
* **`tokenize_eq`**: all tokens are the upcoming ones.
* `Takes`: a run of looks and takes, with the tokens taken. Looks are silent.
-/

namespace ExprLang

/-- Tokens, and what comes behind them: an `eof`, or the failure of a scan. -/
abbrev Upcoming := List Token × Except Failure Token

/-- A token in front of others; nothing is kept behind an `eof`. -/
def Upcoming.cons (token : Token) (rest : Upcoming) : Upcoming :=
  if token.kind = .eof then ([], .ok token) else (token :: rest.1, rest.2)

theorem Upcoming.cons_of_ne {token : Token} (h : token.kind ≠ .eof) (rest : Upcoming) :
    Upcoming.cons token rest = (token :: rest.1, rest.2) := if_neg h

theorem Upcoming.cons_of_eof {token : Token} (h : token.kind = .eof) (rest : Upcoming) :
    Upcoming.cons token rest = ([], .ok token) := if_pos h

/-- Only the end is an `eof`, if it is no failure. -/
structure Upcoming.Ended (u : Upcoming) : Prop where
  inside : ∀ token ∈ u.1, token.kind ≠ .eof
  ending : ∀ last, u.2 = .ok last → last.kind = .eof

theorem Upcoming.Ended.cons {rest : Upcoming} (h : rest.Ended) (token : Token) :
    (Upcoming.cons token rest).Ended := by
  by_cases hk : token.kind = .eof
  · rw [cons_of_eof hk]
    refine ⟨List.forall_mem_nil _, fun last hl => ?_⟩
    cases hl
    exact hk
  · rw [cons_of_ne hk]
    exact ⟨List.forall_mem_cons.mpr ⟨hk, h.inside⟩, h.ending⟩

/-- The tokens that a scanner has yet to find. -/
def Scanner.upcoming (v : Vocabulary) (s : Scanner) : Upcoming :=
  match _h : next? v s with
  | .error e _ => ([], .error e)
  | .ok none t => ([], .ok (TokenStream.eofToken t.line))
  | .ok (some token) t => Upcoming.cons token (upcoming v t)
termination_by s.remaining
decreasing_by exact next?_shrinks v _ _ _ _h rfl

theorem Scanner.upcoming_ended (v : Vocabulary) (s : Scanner) : (s.upcoming v).Ended := by
  fun_induction Scanner.upcoming v s with
  | case1 => exact ⟨List.forall_mem_nil _, fun _ h => nomatch h⟩
  | case2 =>
    refine ⟨List.forall_mem_nil _, fun last h => ?_⟩
    cases h
    rfl
  | case3 s token t _ ih => exact ih.cons token

namespace TokenStream

variable {v : Vocabulary}

/-- The tokens that a stream has yet to deliver. -/
def upcoming (v : Vocabulary) (s : TokenStream) : Upcoming :=
  match s.ahead with
  | some token => Upcoming.cons token (s.scanner.upcoming v)
  | none => s.scanner.upcoming v

theorem upcoming_of_ahead {s : TokenStream} {token : Token} (h : s.ahead = some token) :
    s.upcoming v = Upcoming.cons token (s.scanner.upcoming v) := by
  rw [upcoming, h]

theorem upcoming_of_none {s : TokenStream} (h : s.ahead = none) :
    s.upcoming v = s.scanner.upcoming v := by
  rw [upcoming, h]

theorem upcoming_ended (v : Vocabulary) (s : TokenStream) : (s.upcoming v).Ended := by
  rcases ha : s.ahead with _ | token
  · rw [upcoming_of_none ha]
    exact s.scanner.upcoming_ended v
  · rw [upcoming_of_ahead ha]
    exact (s.scanner.upcoming_ended v).cons token

theorem upcoming_note (e : Event) (s : TokenStream) : (s.note e).upcoming v = s.upcoming v := rfl

/-! ## Looking and taking -/

/-- A scanned token comes first. An `eof` that the scanner makes up at the end has no successor,
which `Upcoming.cons` says for every `eof`. -/
theorem upcoming_of_scan {s t : TokenStream} {token : Token} (h : scan v s = .ok token t) :
    s.scanner.upcoming v = Upcoming.cons token (t.scanner.upcoming v) ∧ t.ahead = s.ahead := by
  simp only [scan] at h
  split at h
  · next found scanner hn =>
    cases h
    refine ⟨?_, rfl⟩
    rw [Scanner.upcoming]
    split <;> simp_all [note]
  · next scanner hn =>
    cases h
    refine ⟨?_, rfl⟩
    rw [Upcoming.cons_of_eof rfl, Scanner.upcoming]
    split <;> simp_all
  · cases h

theorem upcoming_of_scan_error {s t : TokenStream} {e : Failure} (h : scan v s = .error e t) :
    s.scanner.upcoming v = ([], .error e) := by
  simp only [scan] at h
  split at h
  · cases h
  · cases h
  · next hn =>
    cases h
    rw [Scanner.upcoming]
    split <;> simp_all

theorem upcoming_of_lookahead {s t : TokenStream} {token : Token}
    (h : lookahead v s = .ok token t) :
    t.upcoming v = s.upcoming v ∧ t.upcoming v = Upcoming.cons token (t.scanner.upcoming v) := by
  have ht := (lookahead_eq_ok h).1
  refine ⟨?_, upcoming_of_ahead ht⟩
  cases ha : s.ahead with
  | some found =>
    simp only [lookahead, ha] at h
    cases h
    rfl
  | none =>
    rw [upcoming_of_none ha, upcoming_of_ahead ht]
    simp only [lookahead, ha] at h
    split at h
    · next hs =>
      cases h
      exact (upcoming_of_scan hs).1.symm
    · cases h

theorem upcoming_of_lookahead_error {s t : TokenStream} {e : Failure}
    (h : lookahead v s = .error e t) : s.upcoming v = ([], .error e) := by
  cases ha : s.ahead with
  | some found => simp [lookahead, ha] at h
  | none =>
    rw [upcoming_of_none ha]
    simp only [lookahead, ha] at h
    split at h
    · cases h
    · next hs =>
      cases h
      exact upcoming_of_scan_error hs

theorem upcoming_of_consume {s t : TokenStream} {token : Token} (h : consume v s = .ok token t) :
    s.upcoming v = Upcoming.cons token (t.upcoming v) := by
  cases ha : s.ahead with
  | some found =>
    simp only [consume, ha] at h
    cases h
    rw [upcoming_of_ahead ha]
    rfl
  | none =>
    simp only [consume, ha] at h
    obtain ⟨hs, ht⟩ := upcoming_of_scan h
    rw [upcoming_of_none ha, hs, upcoming_of_none (ht.trans ha)]

theorem upcoming_of_consume_error {s t : TokenStream} {e : Failure}
    (h : consume v s = .error e t) : s.upcoming v = ([], .error e) := by
  cases ha : s.ahead with
  | some found => simp [consume, ha] at h
  | none =>
    simp only [consume, ha] at h
    rw [upcoming_of_none ha, upcoming_of_scan_error h]

theorem exists_lookahead {s : TokenStream} {token : Token} {rest : List Token}
    {ending : Except Failure Token} (h : s.upcoming v = (token :: rest, ending)) :
    ∃ t, lookahead v s = .ok token t ∧ t.ahead = some token ∧ t.upcoming v = s.upcoming v := by
  cases hl : lookahead v s with
  | error e t =>
    rw [upcoming_of_lookahead_error hl] at h
    cases h
  | ok found t =>
    obtain ⟨ht, hc⟩ := upcoming_of_lookahead hl
    have hf : found = token := by
      rw [← ht, hc] at h
      unfold Upcoming.cons at h
      split at h
      · cases h
      · exact (List.cons.inj (congrArg Prod.fst h)).1
    exact ⟨t, hf ▸ rfl, hf ▸ (lookahead_eq_ok hl).1, ht⟩

theorem exists_lookahead_eof {s : TokenStream} {token : Token}
    (h : s.upcoming v = ([], .ok token)) :
    ∃ t, lookahead v s = .ok token t ∧ t.ahead = some token ∧ token.kind = .eof := by
  cases hl : lookahead v s with
  | error e t =>
    rw [upcoming_of_lookahead_error hl] at h
    cases h
  | ok found t =>
    obtain ⟨ht, hc⟩ := upcoming_of_lookahead hl
    rw [← ht, hc] at h
    unfold Upcoming.cons at h
    split at h
    · next hk =>
      cases h
      exact ⟨t, rfl, (lookahead_eq_ok hl).1, hk⟩
    · cases h

/-! ## All tokens -/

theorem upcoming_of_round_error {s t : TokenStream} {e : Failure}
    (h : consumeUnlessEof v s = .error e t) : s.upcoming v = ([], .error e) := by
  simp only [consumeUnlessEof, bind, EStateM.bind] at h
  split at h
  · next token u hl =>
    rw [← (upcoming_of_lookahead hl).1]
    split at h
    · cases h
    · simp only [EStateM.bind] at h
      split at h
      · cases h
      · next hc =>
        cases h
        exact upcoming_of_consume_error hc
  · next hl =>
    cases h
    exact upcoming_of_lookahead_error hl

/-- The round that takes nothing stands in front of the `eof`. -/
theorem upcoming_of_round_none {s t : TokenStream} (h : consumeUnlessEof v s = .ok none t) :
    ∃ last, s.upcoming v = ([], .ok last) ∧ t.ahead = some last ∧ last.kind = .eof := by
  obtain ⟨token, u, hl, h⟩ := bind_eq_ok_iff.mp h
  split at h
  · next hk =>
    obtain ⟨-, rfl⟩ := pure_eq_ok_iff.mp h
    obtain ⟨hu, hc⟩ := upcoming_of_lookahead hl
    rw [← hu, hc, Upcoming.cons_of_eof hk]
    exact ⟨token, rfl, (lookahead_eq_ok hl).1, hk⟩
  · obtain ⟨_, _, _, h⟩ := bind_eq_ok_iff.mp h
    exact absurd (pure_eq_ok_iff.mp h).1 (by simp)

theorem upcoming_of_round_some {s t : TokenStream} {token : Token}
    (h : consumeUnlessEof v s = .ok (some token) t) :
    s.upcoming v = (token :: (t.upcoming v).1, (t.upcoming v).2) := by
  obtain ⟨seen, u, hl, h⟩ := bind_eq_ok_iff.mp h
  split at h
  · exact absurd (pure_eq_ok_iff.mp h).1 (by simp)
  · next hk =>
    obtain ⟨taken, w, hc, h⟩ := bind_eq_ok_iff.mp h
    obtain ⟨ht, rfl⟩ := pure_eq_ok_iff.mp h
    cases ht
    have hseen : token = seen := by
      rw [consume_of_ahead (lookahead_eq_ok hl).1] at hc
      cases hc
      rfl
    rw [← (upcoming_of_lookahead hl).1, upcoming_of_consume hc]
    exact Upcoming.cons_of_ne (hseen ▸ hk) _

/-- The rounds of `tokenize` gather the upcoming tokens. -/
theorem collectFrom_consumeUnlessEof (s : TokenStream) (found : List Token) :
    match s.upcoming v with
    | (tokens, .ok last) => ∃ t,
        collectFrom remaining (consumeUnlessEof v) (consumeUnlessEof_shrinks v) found s =
          .ok (found.reverse ++ tokens) t ∧ t.ahead = some last ∧ last.kind = .eof
    | (_, .error e) => ∃ t,
        collectFrom remaining (consumeUnlessEof v) (consumeUnlessEof_shrinks v) found s =
          .error e t := by
  fun_induction collectFrom remaining (consumeUnlessEof v) (consumeUnlessEof_shrinks v) found s with
  | case1 found s e t hs =>
    rw [upcoming_of_round_error hs]
    exact ⟨t, rfl⟩
  | case2 found s t hs =>
    obtain ⟨last, hu, ha, hk⟩ := upcoming_of_round_none hs
    rw [hu]
    exact ⟨t, by rw [List.append_nil], ha, hk⟩
  | case3 found s token t hs ih =>
    rw [upcoming_of_round_some hs]
    rcases ht : t.upcoming v with ⟨tokens, e | last⟩ <;> rw [ht] at ih
    · exact ih
    · simpa [List.append_assoc] using ih

/-- **All tokens are the upcoming ones**, and no scan fails exactly if they end with an `eof`. -/
theorem tokenize_eq (s : TokenStream) :
    match s.upcoming v with
    | (tokens, .ok last) => last.kind = .eof ∧ ∃ t, tokenize v s = .ok (tokens ++ [last]) t
    | (_, .error e) => ∃ t, tokenize v s = .error e t := by
  have h := collectFrom_consumeUnlessEof (v := v) s []
  cases hu : s.upcoming v with
  | mk tokens ending =>
    rw [hu] at h
    cases ending with
    | ok last =>
      obtain ⟨t, hc, ha, hk⟩ := h
      refine ⟨hk, { t with ahead := none }, ?_⟩
      rw [List.reverse_nil, List.nil_append] at hc
      simp only [tokenize, collect, bind, EStateM.bind, hc, consume_of_ahead ha]
      rfl
    | error e =>
      obtain ⟨t, hc⟩ := h
      exact ⟨t, by simp only [tokenize, collect, bind, EStateM.bind, hc]⟩

theorem upcoming_of_tokenize {s t : TokenStream} {tokens : List Token}
    (h : tokenize v s = .ok tokens t) :
    ∃ last, last.kind = .eof ∧ s.upcoming v = (tokens.dropLast, .ok last) ∧
      tokens = tokens.dropLast ++ [last] := by
  have ht := tokenize_eq (v := v) s
  cases hu : s.upcoming v with
  | mk found ending =>
    rw [hu] at ht
    cases ending with
    | ok last =>
      obtain ⟨hk, u, hs⟩ := ht
      rw [hs] at h
      cases h
      exact ⟨last, hk, by rw [List.dropLast_concat], by rw [List.dropLast_concat]⟩
    | error e =>
      obtain ⟨u, hs⟩ := ht
      rw [hs] at h
      cases h

/-! ## Runs -/

/-- `Takes v s tokens t`: looks and takes lead from `s` to `t`, and `tokens` are those taken. -/
inductive Takes (v : Vocabulary) : TokenStream → List Token → TokenStream → Prop
  | refl (s : TokenStream) : Takes v s [] s
  | look {s t u : TokenStream} {token : Token} {tokens : List Token}
      (step : lookahead v s = .ok token t) (rest : Takes v t tokens u) : Takes v s tokens u
  | take {s t u : TokenStream} {token : Token} {tokens : List Token}
      (step : consume v s = .ok token t) (rest : Takes v t tokens u) : Takes v s (token :: tokens) u
  | note {s u : TokenStream} {tokens : List Token} (e : Event)
      (rest : Takes v (s.note e) tokens u) : Takes v s tokens u

theorem Takes.trans {s t u : TokenStream} {xs ys : List Token} (h : Takes v s xs t)
    (h' : Takes v t ys u) : Takes v s (xs ++ ys) u := by
  induction h with
  | refl => exact h'
  | look step _ ih => exact .look step (ih h')
  | take step _ ih => exact .take step (ih h')
  | note e _ ih => exact .note e (ih h')

theorem Takes.upcoming {s t : TokenStream} {tokens : List Token} (h : Takes v s tokens t)
    (hk : ∀ token ∈ tokens, token.kind ≠ .eof) :
    s.upcoming v = (tokens ++ (t.upcoming v).1, (t.upcoming v).2) := by
  induction h with
  | refl => rfl
  | look step _ ih => rw [← (upcoming_of_lookahead step).1, ih hk]
  | take step _ ih =>
    rw [upcoming_of_consume step, Upcoming.cons_of_ne (hk _ List.mem_cons_self),
      ih fun token ht => hk token (List.mem_cons_of_mem _ ht)]
    rfl
  | note e _ ih => rw [← upcoming_note e, ih hk]

end TokenStream

end ExprLang
