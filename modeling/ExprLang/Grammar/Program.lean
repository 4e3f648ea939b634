import ExprLang.Grammar.Statement

/-!
# Programs

A program is a sequence of units up to the end of the source. The nesting of each is counted from
zero, and what one declares globally the later ones see. The first failure ends the parse.
-/

namespace ExprLang.Grammar

variable (g : Grammar)

/-- Performs an action and enters its failure in the journal, if it fails. -/
def notingFailure {α : Type} (action : ParseM α) : ParseM α := fun s =>
  match action s with
  | .ok a t => .ok a t
  | .error e t => .error e (t.note (.stopped e))

/-- The next unit; none at the end of the source. A failure of the unit enters the journal. -/
def programStep : ParseM (Option (Option Tree)) := do
  if (← g.currentKind) = .eof then return none
  else
    resetDepth
    some <$> notingFailure g.topLevelUnit

theorem notingFailure_shrinks {α : Type} {p : α → Prop} {action : ParseM α}
    (h : Shrinks ParseState.remaining p action) :
    Shrinks ParseState.remaining p (notingFailure action) := by
  intro s a t hs
  simp only [notingFailure] at hs
  split at hs
  · next ha =>
    cases hs
    exact h _ _ _ ha
  · cases hs

theorem programStep_shrinks :
    Shrinks ParseState.remaining (·.isSome = true) g.programStep := by
  refine .bind_right g.currentKind_keeps fun kind => ?_
  split
  · exact .pure (by simp)
  · refine .bind_right resetDepth_keeps fun _ => .map (notingFailure_shrinks ?_)
    exact .bind_right g.room_keeps fun room => (g.unitIn_shrinks room).mono fun _ _ => trivial

/-- All units of a program that leave something in the tree. -/
def program : ParseM (List Tree) := do
  let found ← collect ParseState.remaining g.programStep g.programStep_shrinks
  let units := found.filterMap id
  note (.finished units.length (← get).scopes.current.size)
  return units

/-- The state in which a parse of a source begins. -/
def start (s : Source) : ParseState := (ParseState.ofSource s).note (.began g.maxDepth)

/-- Parses a source, and gives the state that the parse ended in. -/
def parseRun (s : Source) : EStateM.Result Failure ParseState (List Tree) := g.program (g.start s)

/-- The units of the program in a source, or what is wrong with it. -/
def parse (s : Source) : Except Failure (List Tree) :=
  match g.parseRun s with
  | .ok units _ => .ok units
  | .error e _ => .error e

end ExprLang.Grammar
