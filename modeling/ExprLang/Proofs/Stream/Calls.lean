import Mathlib.Data.List.Basic
import ExprLang.Proofs.Stream.Attempts
import ExprLang.Proofs.Stream.Passes
import ExprLang.Vocabulary.Standard

/-!
# Looks and takes in any order

A token stream is asked for tokens by looks and takes, whatever came of the earlier ones. A look
that fails has gone behind what it failed at, as a take would have; a look that shows a token leaves
it for the next take.

* `Call`, `answers`: calls, and what becomes of each of them.
* `delivered`: the answers without the tokens that were only shown.
* `Lag`: where a stream is, compared with one that takes alone have led to.
* **`delivered_eq_takesAlone`**: what is delivered is what takes alone come to.
-/

namespace ExprLang.TokenStream

/-- A call of a token stream: the next token is looked at, or taken. -/
inductive Call where
  | look
  | take
  deriving DecidableEq

/-- Performs a call. -/
def Call.perform (v : Vocabulary) : Call → TokenM Token
  | look => lookahead v
  | take => consume v

/-- What becomes of a call. -/
abbrev Answer := Call × Except Failure Token

/-- Whether a token is only shown, and stays where it is. -/
def Answer.shows : Answer → Bool
  | (.look, .ok _) => true
  | _ => false

/-- What calls come to, each with the call that it answers. -/
def answers (v : Vocabulary) (calls : List Call) (s : TokenStream) : List Answer :=
  calls.zip (attempts (Call.perform v) calls s).1

/-- The outcomes of calls, without those of the looks that show a token. -/
def delivered (found : List Answer) : List (Except Failure Token) :=
  (found.filter (!·.shows)).map Prod.snd

/-- What so many takes come to, and the stream they leave. -/
def takesAlone (v : Vocabulary) (n : Nat) (s : TokenStream) :
    List (Except Failure Token) × TokenStream :=
  attempts (Call.perform v) (List.replicate n .take) s

variable {v : Vocabulary} {r s : TokenStream} {token : Token}

theorem answers_cons (call : Call) (calls : List Call) (s : TokenStream) :
    answers v (call :: calls) s =
      (call, (attempt (call.perform v) s).1) ::
        answers v calls (attempt (call.perform v) s).2 := rfl

theorem map_fst_answers (calls : List Call) (s : TokenStream) :
    (answers v calls s).map Prod.fst = calls :=
  List.map_fst_zip (by simp)

theorem takesAlone_succ (n : Nat) (s : TokenStream) :
    takesAlone v (n + 1) s =
      ((attempt (consume v) s).1 :: (takesAlone v n (attempt (consume v) s).2).1,
        (takesAlone v n (attempt (consume v) s).2).2) := rfl

theorem takesAlone_add (m n : Nat) (s : TokenStream) :
    takesAlone v (m + n) s =
      ((takesAlone v m s).1 ++ (takesAlone v n (takesAlone v m s).2).1,
        (takesAlone v n (takesAlone v m s).2).2) := by
  unfold takesAlone
  rw [← List.replicate_append_replicate, attempts_append]

/-! ## One call -/

/-- `Lag v r s`: takes alone have led to `r`, and calls to `s`. Either is where the other is, or a
token is kept ahead in `s` that the next take finds in `r`. -/
def Lag (v : Vocabulary) (r s : TokenStream) : Prop :=
  (s = r ∧ r.ahead = none) ∨
    ∃ token, s.ahead = some token ∧ consume v r = .ok token { s with ahead := none }

/-- The scanner of the calls has passed at most one token more, and takes that find it are then
where the calls are. -/
theorem Lag.catchUp (h : Lag v r s) :
    ∃ kept : List Token, kept.length ≤ 1 ∧ s.ahead = kept.head? ∧
      takesAlone v kept.length r = (kept.map .ok, { s with ahead := none }) := by
  rcases h with ⟨rfl, hahead⟩ | ⟨token, hahead, hr⟩
  · exact ⟨[], Nat.zero_le 1, hahead, congrArg (Prod.mk []) (by rw [← hahead])⟩
  · have hfirst : attempt (consume v) r = (.ok token, { s with ahead := none }) :=
      attempt_of_ok hr
    refine ⟨[token], Nat.le_refl 1, hahead, ?_⟩
    rw [List.length_singleton, takesAlone_succ, hfirst]
    rfl

theorem ahead_of_scan_error {t : TokenStream} {e : Failure} (h : scan v s = .error e t) :
    t.ahead = s.ahead := by
  unfold scan at h
  split at h
  · cases h
  · cases h
  · cases h
    rfl

/-- A look with nothing ahead fails as a take does, or keeps what a take finds. -/
theorem attempt_lookahead_of_none (h : s.ahead = none) :
    (∃ e t, attempt (lookahead v) s = (.error e, t) ∧ attempt (consume v) s = (.error e, t) ∧
        t.ahead = none) ∨
      ∃ token t, attempt (lookahead v) s = (.ok token, t) ∧ Lag v s t := by
  rcases hscan : scan v s with ⟨token, t⟩ | ⟨e, t⟩
  · refine .inr ⟨token, { t with ahead := some token }, attempt_of_ok ?_, .inr ⟨token, rfl, ?_⟩⟩
    · simp only [lookahead, h, hscan]
    · have hnone : t.ahead = none := (passes_of_scan hscan).2.trans h
      simp only [consume, h, hscan]
      rw [← hnone]
  · have hnone : t.ahead = none := (ahead_of_scan_error hscan).trans h
    refine .inl ⟨e, t, attempt_of_error ?_, attempt_of_error ?_, hnone⟩
    · simp only [lookahead, h, hscan]
    · simp only [consume, h, hscan]

theorem attempt_lookahead_of_ahead (h : s.ahead = some token) :
    attempt (lookahead v) s = (.ok token, s) :=
  attempt_of_ok (by simp only [lookahead, h])

theorem attempt_consume_of_ahead (h : s.ahead = some token) :
    attempt (consume v) s = (.ok token, { s with ahead := none }) :=
  attempt_of_ok (consume_of_ahead h)

theorem ahead_of_attempt_lookahead (h : (attempt (lookahead v) s).1 = .ok token) :
    (attempt (lookahead v) s).2.ahead = some token := by
  rcases hl : lookahead v s with ⟨found, t⟩ | ⟨e, t⟩
  · rw [attempt_of_ok hl] at h ⊢
    cases h
    exact (lookahead_eq_ok hl).1
  · rw [attempt_of_error hl] at h
    cases h

theorem ahead_of_attempt_consume (s : TokenStream) : (attempt (consume v) s).2.ahead = none := by
  rcases hc : consume v s with ⟨token, t⟩ | ⟨e, t⟩
  · rw [attempt_of_ok hc]
    exact ahead_of_consume hc
  · rw [attempt_of_error hc]
    have hnone := (next?_of_consume_error hc).1
    simp only [consume, hnone] at hc
    exact (ahead_of_scan_error hc).trans hnone

theorem Lag.take (h : Lag v r s) :
    (attempt (consume v) r).1 = (attempt (consume v) s).1 ∧
      Lag v (attempt (consume v) r).2 (attempt (consume v) s).2 := by
  have hnone := ahead_of_attempt_consume (v := v) r
  rcases h with ⟨rfl, -⟩ | ⟨token, hahead, hr⟩
  · exact ⟨rfl, .inl ⟨rfl, hnone⟩⟩
  · have hsame : attempt (consume v) s = attempt (consume v) r := by
      rw [attempt_of_ok hr, attempt_consume_of_ahead hahead]
    rw [hsame]
    exact ⟨rfl, .inl ⟨rfl, hnone⟩⟩

theorem Lag.look (h : Lag v r s) :
    (∃ token, (attempt (lookahead v) s).1 = .ok token ∧ Lag v r (attempt (lookahead v) s).2) ∨
      ∃ e, (attempt (lookahead v) s).1 = .error e ∧ (attempt (consume v) r).1 = .error e ∧
        Lag v (attempt (consume v) r).2 (attempt (lookahead v) s).2 := by
  rcases h with ⟨rfl, hnone⟩ | ⟨token, hahead, hr⟩
  · rcases attempt_lookahead_of_none (v := v) hnone with
      ⟨e, t, hlook, htake, ht⟩ | ⟨token, t, hlook, hlag⟩
    · rw [hlook, htake]
      exact .inr ⟨e, rfl, rfl, .inl ⟨rfl, ht⟩⟩
    · rw [hlook]
      exact .inl ⟨token, rfl, hlag⟩
  · rw [attempt_lookahead_of_ahead hahead]
    exact .inl ⟨token, rfl, .inr ⟨token, hahead, hr⟩⟩

/-- **One call**: a look that shows a token is no progress for takes alone; any other call comes to
what the next take comes to. -/
theorem Lag.step (h : Lag v r s) (call : Call) :
    (Answer.shows (call, (attempt (call.perform v) s).1) = true ∧
        Lag v r (attempt (call.perform v) s).2) ∨
      (Answer.shows (call, (attempt (call.perform v) s).1) = false ∧
        (attempt (consume v) r).1 = (attempt (call.perform v) s).1 ∧
        Lag v (attempt (consume v) r).2 (attempt (call.perform v) s).2) := by
  cases call with
  | take => exact .inr ⟨rfl, h.take⟩
  | look =>
    simp only [Call.perform]
    rcases h.look with ⟨token, hlook, hlag⟩ | ⟨e, hlook, htake, hlag⟩
    · rw [hlook]
      exact .inl ⟨rfl, hlag⟩
    · rw [hlook, htake]
      exact .inr ⟨rfl, rfl, hlag⟩

/-! ## Many calls -/

theorem delivered_cons (a : Answer) (others : List Answer) :
    delivered (a :: others) = if a.shows then delivered others else a.2 :: delivered others := by
  cases hshows : a.shows <;> simp [delivered, hshows]

/-- **Any calls**: takes alone, as many as outcomes are delivered, come to just these. -/
theorem Lag.run (h : Lag v r s) (calls : List Call) :
    (takesAlone v (delivered (answers v calls s)).length r).1 = delivered (answers v calls s) ∧
      Lag v (takesAlone v (delivered (answers v calls s)).length r).2
        (attempts (Call.perform v) calls s).2 := by
  induction calls generalizing r s with
  | nil => exact ⟨rfl, h⟩
  | cons call calls ih =>
    have hstep := h.step call
    rw [answers_cons, delivered_cons]
    rcases hstep with ⟨hshows, hlag⟩ | ⟨hshows, hsame, hlag⟩
    · rw [if_pos hshows]
      exact ih hlag
    · have hrest := ih hlag
      rw [hshows, if_neg Bool.false_ne_true, List.length_cons, takesAlone_succ, hsame, hrest.1]
      exact ⟨rfl, hrest.2⟩

theorem answers_eq_cons {calls : List Call} {a : Answer} {others : List Answer}
    (h : answers v calls s = a :: others) :
    ∃ rest, (attempt (a.1.perform v) s).1 = a.2 ∧
      answers v rest (attempt (a.1.perform v) s).2 = others := by
  cases calls with
  | nil => cases h
  | cons call rest =>
    obtain ⟨rfl, hothers⟩ := List.cons.inj h
    exact ⟨rest, rfl, hothers⟩

/-- What is answered later is answered by a later stream. -/
theorem exists_of_answers_eq {calls : List Call} {front behind : List Answer} {a : Answer}
    (h : answers v calls s = front ++ a :: behind) :
    ∃ t rest, (attempt (a.1.perform v) t).1 = a.2 ∧
      answers v rest (attempt (a.1.perform v) t).2 = behind := by
  induction front generalizing s calls with
  | nil => exact ⟨s, answers_eq_cons h⟩
  | cons b front ih =>
    obtain ⟨rest, -, hrest⟩ := answers_eq_cons h
    exact ih hrest

/-- The token kept ahead is what the next take gives, however many looks come first. -/
theorem eq_ok_of_ahead {calls : List Call} {mid rest : List Answer}
    {outcome : Except Failure Token} (hahead : s.ahead = some token)
    (h : answers v calls s = mid ++ (.take, outcome) :: rest)
    (hmid : ∀ found, (.take, .ok found) ∉ mid) : outcome = .ok token := by
  have htake := attempt_consume_of_ahead (v := v) hahead
  have hlook := attempt_lookahead_of_ahead (v := v) hahead
  induction mid generalizing calls with
  | nil =>
    obtain ⟨-, houtcome, -⟩ := answers_eq_cons h
    simp only [Call.perform, htake] at houtcome
    exact houtcome.symm
  | cons a mid ih =>
    obtain ⟨others, hfirst, hothers⟩ := answers_eq_cons h
    obtain ⟨call, result⟩ := a
    cases call with
    | look =>
      simp only [Call.perform, hlook] at hothers
      exact ih hothers fun found hmem => hmid found (List.mem_cons_of_mem _ hmem)
    | take =>
      simp only [Call.perform, htake] at hfirst
      exact absurd (hfirst ▸ List.mem_cons_self) (hmid token)

/-- **Looks lose nothing, repeat nothing and change no order.** The scanner has passed what is
delivered and at most one token that is kept ahead. -/
theorem delivered_eq_takesAlone (v : Vocabulary) (source : Source) (calls : List Call) :
    let found := answers v calls (.ofSource source)
    let behind := (attempts (Call.perform v) calls (.ofSource source)).2
    found.map Prod.fst = calls ∧
      (takesAlone v (delivered found).length (.ofSource source)).1 = delivered found ∧
      (∀ front token mid outcome rest,
        found = front ++ (.look, .ok token) :: (mid ++ (.take, outcome) :: rest) →
        (∀ other, (.take, .ok other) ∉ mid) → outcome = .ok token) ∧
      ∃ kept : List Token, kept.length ≤ 1 ∧ behind.ahead = kept.head? ∧
        takesAlone v ((delivered found).length + kept.length) (.ofSource source) =
          (delivered found ++ kept.map .ok, { behind with ahead := none }) := by
  have hstart : Lag v (.ofSource source) (.ofSource source) := .inl ⟨rfl, rfl⟩
  have hrun := hstart.run calls
  obtain ⟨kept, hlength, hahead, hcatchUp⟩ := hrun.2.catchUp
  refine ⟨map_fst_answers calls _, hrun.1, ?_, kept, hlength, hahead, ?_⟩
  · intro front token mid outcome rest hfound hmid
    obtain ⟨t, others, hlook, hbehind⟩ := exists_of_answers_eq hfound
    exact eq_ok_of_ahead (ahead_of_attempt_lookahead hlook) hbehind hmid
  · rw [takesAlone_add, hrun.1, hcatchUp]

theorem delivered_eq_takesAlone_failed_look :
    let source := Source.ofString "a\n" ++ [.fault "device lost"] ++ Source.ofString ";"
    let calls := [Call.look, .look, .take, .look, .take, .look]
    delivered (answers .standard calls (.ofSource source)) =
        [.ok ⟨.identifier, "a", 1⟩, .error (.unreadable "device lost"), .ok ⟨.semicolon, ";", 2⟩] ∧
      (takesAlone .standard 3 (.ofSource source)).1 =
        [.ok ⟨.identifier, "a", 1⟩, .error (.unreadable "device lost"),
          .ok ⟨.semicolon, ";", 2⟩] := by
  intro source calls
  have hdelivered : delivered (answers .standard calls (.ofSource source)) =
      [.ok ⟨.identifier, "a", 1⟩, .error (.unreadable "device lost"),
        .ok ⟨.semicolon, ";", 2⟩] := by decide +kernel
  have halone := (delivered_eq_takesAlone .standard source calls).2.1
  rw [hdelivered] at halone
  exact ⟨hdelivered, halone⟩

end ExprLang.TokenStream
