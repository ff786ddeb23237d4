import CssPruning.Media.Pruning

/-!
# Counting while judging

The pass over media rules with a judge that keeps its own books: it counts each
media rule as it is asked about it, and writes down what it drops.
-/

set_option autoImplicit false

namespace CssPruning.Media

/-- The report so far, and the events. -/
structure Tally extends Report where
  events : List Event

namespace Tally

/-- Nothing has been counted. -/
def opening (targets : List Target) (keepLarger : Bool) : Tally :=
  { droppedQueries := []
    evaluated := 0
    skippedEmpty := 0
    kept := 0
    dropped := 0
    events := [openingEvent targets keepLarger] }

/-- Answers whether an at-rule is to stay, and counts it. -/
def judge (targets : List Target) (r : AtRule) (t : Tally) : Bool × Tally :=
  if !r.isMedia then (true, t)
  else
    match r.preludeText with
    | none => (true, { t with skippedEmpty := t.skippedEmpty + 1 })
    | some prelude =>
      let query := AtRule.canonicalPrelude prelude
      let t := { t with
        evaluated := t.evaluated + 1
        events := t.events ++ relevanceForAnyEvents query targets }
      if relevantForAny query targets then
        (true, { t with
          kept := t.kept + 1
          events := t.events ++ [.message .debug .preformatting ("KEEP: (" ++ query ++ ")")] })
      else
        (false, { t with
          dropped := t.dropped + 1
          droppedQueries := t.droppedQueries ++ [query]
          events := t.events ++ [.message .debug .preformatting ("DROP: (" ++ query ++ ")")] })

end Tally

/-- The sheet without the media rules that none of the targets needs, counted on the
way. -/
def pruneCounting (targets : List Target) (keepLarger : Bool) (sheet : Sheet) : Outcome :=
  let effective := Target.effective targets keepLarger
  let (left, t) := sheet.retainWith (Tally.judge effective) (.opening effective keepLarger)
  ⟨left, t.toReport, t.events⟩

end CssPruning.Media
