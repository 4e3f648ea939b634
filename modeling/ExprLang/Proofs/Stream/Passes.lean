import ExprLang.Proofs.Stream.Upcoming

/-!
# Scans one after the other

Which tokens a scanner passes on its way. Where the upcoming tokens end with the first `eof`, scans
may go on behind it, and each of them gives an `eof` again.

* `Scanner.Passes`: the tokens between two scanners.
* `scan_of_passes`, `passes_of_scan`: a token stream scans what its scanner passes.
* **`Takes.passes`**: what is taken and kept ahead was kept ahead or has been passed.
* `exists_takes`, `takes_of_tokenize`: upcoming tokens are taken one by one.
-/

namespace ExprLang

/-- `Passes v s tokens t`: scans lead from `s` to `t`, and give `tokens`. -/
inductive Scanner.Passes (v : Vocabulary) : Scanner → List Token → Scanner → Prop
  | refl (s : Scanner) : Passes v s [] s
  | token {s t u : Scanner} {token : Token} {tokens : List Token}
      (step : next? v s = .ok (some token) t) (rest : Passes v t tokens u) :
      Passes v s (token :: tokens) u
  | ended {s t u : Scanner} {tokens : List Token} (step : next? v s = .ok none t)
      (rest : Passes v t tokens u) : Passes v s (TokenStream.eofToken t.line :: tokens) u

namespace Scanner.Passes

variable {v : Vocabulary} {s t u : Scanner} {xs ys : List Token}

theorem trans (h : Passes v s xs t) (h' : Passes v t ys u) : Passes v s (xs ++ ys) u := by
  induction h with
  | refl => exact h'
  | token step _ ih => exact .token step (ih h')
  | ended step _ ih => exact .ended step (ih h')

theorem split (h : Passes v s (xs ++ ys) u) : ∃ t, Passes v s xs t ∧ Passes v t ys u := by
  induction xs generalizing s with
  | nil => exact ⟨s, .refl s, h⟩
  | cons x xs ih =>
    cases h with
    | token step rest =>
      obtain ⟨t, hx, hy⟩ := ih rest
      exact ⟨t, .token step hx, hy⟩
    | ended step rest =>
      obtain ⟨t, hx, hy⟩ := ih rest
      exact ⟨t, .ended step hx, hy⟩

theorem eq_of_nil (h : Passes v s [] t) : t = s := by
  cases h
  rfl

theorem of_upcoming {ending : Except Failure Token}
    (h : s.upcoming v = (xs ++ ys, ending)) :
    ∃ t, Passes v s xs t ∧ t.upcoming v = (ys, ending) := by
  induction xs generalizing s with
  | nil => exact ⟨s, .refl s, h⟩
  | cons x xs ih =>
    rw [Scanner.upcoming] at h
    split at h
    · cases h
    · cases h
    · next token t hn =>
      unfold Upcoming.cons at h
      split at h
      · cases h
      · obtain ⟨htokens, hending⟩ := Prod.mk.inj h
        obtain ⟨rfl, hrest⟩ := List.cons.inj htokens
        obtain ⟨u, hu, hupcoming⟩ := ih (s := t) (Prod.ext hrest hending)
        exact ⟨u, .token hn hu, hupcoming⟩

end Scanner.Passes

namespace TokenStream

open Scanner

variable {v : Vocabulary} {s t : TokenStream} {token : Token}

theorem passes_of_scan (h : scan v s = .ok token t) :
    Passes v s.scanner [token] t.scanner ∧ t.ahead = s.ahead := by
  unfold scan at h
  split at h
  · next hn =>
    cases h
    exact ⟨.token hn (.refl _), rfl⟩
  · next hn =>
    cases h
    exact ⟨.ended hn (.refl _), rfl⟩
  · cases h

theorem scan_of_passes {u : Scanner} (h : Passes v s.scanner [token] u) :
    ∃ t, scan v s = .ok token t ∧ t.ahead = s.ahead ∧ t.scanner = u := by
  unfold scan
  cases h with
  | token step rest =>
    rw [step, rest.eq_of_nil]
    exact ⟨_, rfl, rfl, rfl⟩
  | ended step rest =>
    rw [step, rest.eq_of_nil]
    exact ⟨_, rfl, rfl, rfl⟩

theorem passes_of_lookahead (h : lookahead v s = .ok token t) :
    ∃ tokens, Passes v s.scanner tokens t.scanner ∧
      s.ahead.toList ++ tokens = t.ahead.toList := by
  unfold lookahead at h
  split at h
  · next found ha =>
    cases h
    exact ⟨[], .refl _, List.append_nil _⟩
  · next ha =>
    split at h
    · next u hs =>
      cases h
      exact ⟨[token], (passes_of_scan hs).1, by rw [ha]; rfl⟩
    · cases h

theorem passes_of_consume (h : consume v s = .ok token t) :
    ∃ tokens, Passes v s.scanner tokens t.scanner ∧
      s.ahead.toList ++ tokens = token :: t.ahead.toList := by
  unfold consume at h
  split at h
  · next found ha =>
    cases h
    exact ⟨[], .refl _, by rw [ha]; rfl⟩
  · next ha =>
    obtain ⟨hp, ht⟩ := passes_of_scan h
    exact ⟨[token], hp, by rw [ht, ha]; rfl⟩

/-- **What a run takes and keeps ahead** was ahead before it or has been passed by it. -/
theorem Takes.passes {taken : List Token} (h : Takes v s taken t) :
    ∃ tokens, Passes v s.scanner tokens t.scanner ∧
      s.ahead.toList ++ tokens = taken ++ t.ahead.toList := by
  induction h with
  | refl s => exact ⟨[], .refl _, List.append_nil _⟩
  | look step _ ih =>
    obtain ⟨xs, hx, hs⟩ := passes_of_lookahead step
    obtain ⟨ys, hy, ht⟩ := ih
    exact ⟨xs ++ ys, hx.trans hy, by rw [← List.append_assoc, hs, ht]⟩
  | take step _ ih =>
    obtain ⟨xs, hx, hs⟩ := passes_of_consume step
    obtain ⟨ys, hy, ht⟩ := ih
    exact ⟨xs ++ ys, hx.trans hy, by rw [← List.append_assoc, hs, List.cons_append, ht]; rfl⟩
  | note e _ ih => exact ih

/-! ## Taking what is upcoming -/

theorem exists_takes {xs ys : List Token} {ending : Except Failure Token}
    (h : s.upcoming v = (xs ++ ys, ending)) :
    ∃ t, Takes v s xs t ∧ t.upcoming v = (ys, ending) := by
  induction xs generalizing s with
  | nil => exact ⟨s, .refl s, h⟩
  | cons x xs ih =>
    rcases hc : consume v s with ⟨found, t⟩ | ⟨e, t⟩
    · rw [upcoming_of_consume hc] at h
      unfold Upcoming.cons at h
      split at h
      · cases h
      · obtain ⟨htokens, hending⟩ := Prod.mk.inj h
        obtain ⟨rfl, hrest⟩ := List.cons.inj htokens
        obtain ⟨u, hu, hupcoming⟩ := ih (Prod.ext hrest hending)
        exact ⟨u, .take hc hu, hupcoming⟩
    · rw [upcoming_of_consume_error hc] at h
      cases h

/-- What ends the upcoming tokens is what the stream answers behind them. -/
theorem consume_of_upcoming_nil {ending : Except Failure Token} (h : s.upcoming v = ([], ending)) :
    match ending with
    | .ok last => ∃ t, consume v s = .ok last t
    | .error e => ∃ t, consume v s = .error e t := by
  rcases hc : consume v s with ⟨found, t⟩ | ⟨e, t⟩
  · rw [upcoming_of_consume hc] at h
    unfold Upcoming.cons at h
    split at h
    · obtain ⟨-, rfl⟩ := Prod.mk.inj h
      exact ⟨t, rfl⟩
    · cases h
  · rw [upcoming_of_consume_error hc] at h
    obtain ⟨-, rfl⟩ := Prod.mk.inj h
    exact ⟨t, rfl⟩

theorem ahead_of_consume (h : consume v s = .ok token t) : t.ahead = none := by
  unfold consume at h
  split at h
  · cases h
    rfl
  · next ha => exact (passes_of_scan h).2.trans ha

theorem takes_of_tokenize {tokens : List Token} (h : tokenize v s = .ok tokens t) :
    ∃ u, Takes v s tokens u ∧ u.ahead = none := by
  obtain ⟨last, -, hu, ht⟩ := upcoming_of_tokenize h
  rw [← List.append_nil tokens.dropLast] at hu
  obtain ⟨w, htakes, hupcoming⟩ := exists_takes hu
  obtain ⟨u, hconsume⟩ := consume_of_upcoming_nil hupcoming
  rw [ht]
  exact ⟨u, htakes.trans (.take hconsume (.refl u)), ahead_of_consume hconsume⟩

/-- Taking fails only where no token is kept ahead, as the scanner does. -/
theorem next?_of_consume_error {e : Failure} (h : consume v s = .error e t) :
    s.ahead = none ∧ next? v s.scanner = .error e t.scanner := by
  unfold consume at h
  split at h
  · cases h
  · next ha =>
    unfold scan at h
    split at h
    · cases h
    · cases h
    · next hn =>
      cases h
      exact ⟨ha, hn⟩

theorem consume_of_next?_error {e : Failure} {u : Scanner} (hahead : s.ahead = none)
    (hnext : next? v s.scanner = .error e u) :
    consume v s = .error e { s with scanner := u } := by
  unfold consume
  split
  · next ha =>
    rw [hahead] at ha
    cases ha
  · unfold scan
    rw [hnext]

end TokenStream

end ExprLang
