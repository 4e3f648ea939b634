import Mathlib.Data.List.Induction
import ExprLang.Proofs.Lexing.Partition

/-!
# Operators in any vocabulary

An operator is extended for as long as the longer lexeme is registered, so a lexeme is found only
if each of its beginnings is registered as well. What is registered is told by the registrations
that were made: of those for one lexeme the last holds, and it may have been made for a keyword or
a type.

* `RegisteredAs`: the last registration for a lexeme made it an operator of a kind.
* **`operatorKind?_registerAll`**: a vocabulary knows the operators registered in it.
* `Grown`, `Munches`: the beginnings of a lexeme, and the longest lexeme that has them all.
* **`operator?_of_holds`**: the rule for operators finds that lexeme and no other.
-/

namespace ExprLang

/-! ## Registrations -/

/-- What a registration reserves a lexeme for, if it is one for that lexeme. -/
def Registration.reserves? (lexeme : String) : Registration → Option Reserved
  | .keyword word kind => if word = lexeme then some (.keyword kind) else none
  | .dataType type => if type.id = lexeme then some (.dataType type) else none
  | .literal .. => none
  | .operator word op => if word = lexeme then some (.operator op) else none

theorem Registration.reserves?_eq_operator {r : Registration} {lexeme : String} {op : Operator} :
    r.reserves? lexeme = some (.operator op) ↔ r = .operator lexeme op := by
  cases r <;> simp [reserves?]

/-- The last of the registrations that are for the lexeme makes it an operator of the kind. -/
def RegisteredAs (entries : List Registration) (lexeme : String) (kind : Kind) : Prop :=
  ∃ before op after, entries = before ++ .operator lexeme op :: after ∧ op.kind = kind ∧
    ∀ r ∈ after, r.reserves? lexeme = none

namespace Vocabulary

theorem lookup_register (v : Vocabulary) (r : Registration) (lexeme : String) :
    (v.register r).lookup lexeme = (r.reserves? lexeme).or (v.lookup lexeme) := by
  cases r with
  | keyword word _ | operator word _ =>
    simp only [register, lookup, Table.get?_insert, Registration.reserves?]
    split <;> rfl
  | dataType type =>
    simp only [register, lookup, Table.get?_insert, Registration.reserves?]
    split <;> rfl
  | literal => rfl

theorem lookup_registerAll (entries : List Registration) (lexeme : String) :
    (empty.registerAll entries).lookup lexeme =
      entries.reverse.findSome? (·.reserves? lexeme) := by
  induction entries using List.reverseRecOn with
  | nil => rfl
  | append_singleton entries r ih =>
    rw [registerAll, List.foldl_append, List.reverse_append]
    refine (lookup_register _ r lexeme).trans ?_
    rw [← registerAll, ih]
    cases h : r.reserves? lexeme <;> simp [h]

/-- **A vocabulary knows the operators registered in it**, as long as nothing else is registered for
their lexemes. -/
theorem operatorKind?_registerAll {entries : List Registration} {lexeme : String} {kind : Kind} :
    (empty.registerAll entries).operatorKind? lexeme = some kind ↔
      RegisteredAs entries lexeme kind := by
  unfold operatorKind?
  rw [lookup_registerAll]
  constructor
  · intro h
    split at h
    · next op hfound =>
      obtain ⟨after, r, before, hentries, hr, hafter⟩ := List.findSome?_eq_some_iff.mp hfound
      obtain rfl := Registration.reserves?_eq_operator.mp hr
      refine ⟨before.reverse, op, after.reverse, ?_, Option.some.inj h, ?_⟩
      · simpa using congrArg List.reverse hentries
      · simpa using hafter
    · cases h
  · rintro ⟨before, op, after, rfl, rfl, hafter⟩
    have hreserved : (Registration.operator lexeme op).reserves? lexeme = _ :=
      Registration.reserves?_eq_operator.mpr rfl
    have hnone : after.reverse.findSome? (·.reserves? lexeme) = none := by simpa using hafter
    rw [List.reverse_append, List.reverse_cons, List.append_assoc, List.findSome?_append, hnone]
    simp [hreserved]

end Vocabulary

/-! ## Beginnings -/

/-- Every beginning that is not empty is registered as an operator. -/
def Grown (entries : List Registration) (cs : List Char) : Prop :=
  ∀ front, front <+: cs → front ≠ [] → ∃ kind, RegisteredAs entries (.ofList front) kind

/-- `Munches entries cs raw rest`: the characters start with the operator `raw`, and with none that
is longer. -/
structure Munches (entries : List Registration) (cs raw rest : List Char) : Prop where
  split : cs = raw ++ rest
  nonempty : raw ≠ []
  grown : Grown entries raw
  longest : ∀ front, front <+: cs → Grown entries front → front.length ≤ raw.length

theorem Munches.exists_first {entries : List Registration} {cs raw rest : List Char}
    (h : Munches entries cs raw rest) :
    ∃ c kind, cs.head? = some c ∧ RegisteredAs entries (.ofList [c]) kind := by
  obtain ⟨c, more, rfl⟩ := List.exists_cons_of_ne_nil h.nonempty
  obtain ⟨kind, hkind⟩ := h.grown [c] (by simp) (List.cons_ne_nil _ _)
  exact ⟨c, kind, by rw [h.split]; rfl, hkind⟩

theorem ofList_concat (raw : List Char) (c : Char) :
    String.ofList (raw ++ [c]) = (String.ofList raw).push c := String.toList_inj.mp (by simp)

namespace Scanner

open Cursor

variable {v : Vocabulary} {entries : List Registration} {cs : List Char}

theorem grows_iff {front : String} : grows v front cs = true ↔
    ∀ raw, raw <+: cs → raw ≠ [] → (v.operatorKind? (front ++ .ofList raw)).isSome = true := by
  induction cs generalizing front with
  | nil => simp [grows]
  | cons c cs ih =>
    have hpush : ∀ raw, front ++ String.ofList (c :: raw) = front.push c ++ String.ofList raw :=
      fun raw => String.toList_inj.mp (by simp)
    rw [grows, Bool.and_eq_true, ih]
    constructor
    · rintro ⟨hc, hcs⟩ (_ | ⟨d, raw⟩) hprefix hne
      · exact absurd rfl hne
      · obtain ⟨rfl, hraw⟩ := List.cons_prefix_cons.mp hprefix
        rw [hpush]
        by_cases hempty : raw = []
        · rw [hempty, String.ofList_nil, String.append_empty]
          exact hc
        · exact hcs raw hraw hempty
    · refine fun h => ⟨?_, fun raw hraw _ => ?_⟩
      · simpa [hpush] using h [c] (by simp) (List.cons_ne_nil _ _)
      · rw [← hpush]
        exact h _ (List.cons_prefix_cons.mpr ⟨rfl, hraw⟩) (List.cons_ne_nil _ _)

theorem grown_iff {raw : List Char} :
    Grown entries raw ↔ grows (Vocabulary.empty.registerAll entries) "" raw = true := by
  simp only [grows_iff, Grown, String.empty_append, Option.isSome_iff_exists,
    Vocabulary.operatorKind?_registerAll]

/-- Nothing that goes on behind an operator that is separate has all its beginnings registered. -/
theorem length_le_of_separate {raw rest front : List Char}
    (h : Separate (Vocabulary.empty.registerAll entries) (.ofList raw) rest)
    (hfront : front <+: raw ++ rest) (hgrown : Grown entries front) :
    front.length ≤ raw.length := by
  by_contra hlonger
  obtain ⟨tail, rfl⟩ :=
    List.prefix_of_prefix_length_le (List.prefix_append raw rest) hfront (by omega)
  obtain ⟨c, more, rfl⟩ := List.exists_cons_of_ne_nil (l := tail) (by rintro rfl; simp at hlonger)
  obtain ⟨others, rfl⟩ := (List.prefix_append_right_inj raw).mp hfront
  obtain ⟨kind, hkind⟩ := hgrown (raw ++ [c]) (by simp) (by simp)
  have hnone := h c rfl
  rw [← Vocabulary.operatorKind?_registerAll, ofList_concat, hnone] at hkind
  cases hkind

/-- The scanner finds the longest operator, if there is any. -/
theorem gives_munches (entries : List Registration) (line : UInt32) (cs : List Char) :
    Gives (fun _ => False) (operator? (Vocabulary.empty.registerAll entries)) line cs
      fun r rest =>
        match r with
        | some token => ∃ raw, Munches entries cs raw rest ∧
            RegisteredAs entries (.ofList raw) token.kind ∧ token.value = .ofList raw ∧
            token.line = line
        | none => cs = rest ∧
            ∀ c kind, cs.head? = some c → ¬RegisteredAs entries (.ofList [c]) kind := by
  refine gives_get fun s hs => .bind (gives_foldWhile _ ("", none)) ?_
  rintro ⟨value, kind?⟩ rest h
  obtain ⟨raw, rfl, hvalue, hgrows, hseparate, hfound⟩ := foldFront_operatorStep_eq h
  rw [String.empty_append] at hvalue
  subst hvalue
  rcases hfound with ⟨rfl, hnone⟩ | ⟨hne, hkind, hsome⟩
  · cases hnone
    refine .pure ⟨rfl, fun c kind hc hregistered => ?_⟩
    have hnone := hseparate c hc
    rw [← ofList_concat, List.nil_append,
      Vocabulary.operatorKind?_registerAll.mpr hregistered] at hnone
    cases hnone
  · obtain ⟨kind, rfl⟩ := Option.isSome_iff_exists.mp hsome
    refine .pure ⟨raw, ⟨rfl, hne, grown_iff.mpr hgrows, ?_⟩, ?_, rfl, hs⟩
    · exact fun front hfront => length_le_of_separate hseparate hfront
    · exact Vocabulary.operatorKind?_registerAll.mp hkind.symm

/-- **The longest operator is taken**, of which each beginning is an operator, too; if the first
character is none, then nothing is taken. -/
theorem operator?_of_holds (entries : List Registration) (s : Scanner) (cs : List Char)
    (h : s.cursor.Holds cs) :
    ((∃ c kind, cs.head? = some c ∧ RegisteredAs entries (.ofList [c]) kind) →
      ∃ raw rest kind t, Munches entries cs raw rest ∧ RegisteredAs entries (.ofList raw) kind ∧
        operator? (Vocabulary.empty.registerAll entries) s =
          .ok (some ⟨kind, .ofList raw, s.line⟩) t ∧
        t.cursor.Holds rest ∧ t.line = s.line) ∧
    ((∀ c kind, cs.head? = some c → ¬RegisteredAs entries (.ofList [c]) kind) →
      ∃ t, operator? (Vocabulary.empty.registerAll entries) s = .ok none t ∧
        t.cursor.Holds cs ∧ t.line = s.line) := by
  have hgives := gives_munches entries s.line cs s h rfl
  rcases hr : operator? (Vocabulary.empty.registerAll entries) s with ⟨_ | token, t⟩ | ⟨e, t⟩ <;>
    rw [hr] at hgives
  · obtain ⟨_, ht, hline, rfl, hnone⟩ := hgives
    refine ⟨?_, fun _ => ⟨t, rfl, ht, hline⟩⟩
    rintro ⟨c, kind, hc, hregistered⟩
    exact absurd hregistered (hnone c kind hc)
  · obtain ⟨rest, ht, hline, raw, hmunches, hkind, hvalue, htoken⟩ := hgives
    obtain ⟨c, kind, hc, hregistered⟩ := hmunches.exists_first
    refine ⟨fun _ => ⟨raw, rest, token.kind, t, hmunches, hkind, ?_, ht, hline⟩, fun hnone => ?_⟩
    · rw [← hvalue, ← htoken]
    · exact absurd hregistered (hnone c kind hc)
  · exact hgives.elim

/-- Operators of one, two and three characters, of which the second is overwritten by a keyword. -/
def interrupted : List Registration :=
  [.operator "<" ⟨.less, 1, .leftToRight, []⟩, .operator "<=" ⟨.lessEquals, 1, .leftToRight, []⟩,
    .operator "<=>" ⟨.equals, 1, .leftToRight, []⟩, .keyword "<=" .varDecl]

theorem operator?_of_holds_interrupted :
    (Scanner.ofSource (.ofString "<=>")).cursor.Holds "<=>".toList ∧
    (∃ c kind, "<=>".toList.head? = some c ∧ RegisteredAs interrupted (.ofList [c]) kind) ∧
    (∃ raw rest kind t, Munches interrupted "<=>".toList raw rest ∧
      RegisteredAs interrupted (.ofList raw) kind ∧
      operator? (Vocabulary.empty.registerAll interrupted) (Scanner.ofSource (.ofString "<=>")) =
        .ok (some ⟨kind, .ofList raw, 1⟩) t ∧ t.cursor.Holds rest ∧ t.line = 1) ∧
    (Scanner.ofSource (.ofString "=>")).cursor.Holds "=>".toList ∧
    (∀ c kind, "=>".toList.head? = some c → ¬RegisteredAs interrupted (.ofList [c]) kind) ∧
    ∃ t, operator? (Vocabulary.empty.registerAll interrupted) (Scanner.ofSource (.ofString "=>")) =
      .ok none t ∧ t.cursor.Holds "=>".toList ∧ t.line = 1 := by
  have hfirst : ∃ c kind, "<=>".toList.head? = some c ∧
      RegisteredAs interrupted (.ofList [c]) kind :=
    ⟨'<', .less, by decide, [], _, interrupted.tail, rfl, rfl, by decide⟩
  have hnone : ∀ c kind, "=>".toList.head? = some c →
      ¬RegisteredAs interrupted (.ofList [c]) kind := by
    intro c kind hc hregistered
    obtain rfl : '=' = c := Option.some.inj ((by decide : "=>".toList.head? = some '=') ▸ hc)
    rw [← Vocabulary.operatorKind?_registerAll] at hregistered
    cases hregistered
  exact ⟨holds_ofSource _, hfirst, (operator?_of_holds _ _ _ (holds_ofSource _)).1 hfirst,
    holds_ofSource _, hnone, (operator?_of_holds _ _ _ (holds_ofSource _)).2 hnone⟩

end Scanner

end ExprLang
