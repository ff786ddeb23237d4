import CssPruning.Font.Face

/-!
# Counting while judging

The pass over font faces with a judge that keeps its own books: it counts each face
as it is asked about it, and writes down which ones it drops and why.
-/

set_option autoImplicit false

namespace CssPruning.Font

/-- The report so far, and the events. -/
structure Tally extends FaceReport where
  events : List Event

namespace Tally

/-- Nothing has been counted. -/
def opening : Tally :=
  { dropped := []
    total := 0
    kept := 0
    droppedUnused := 0
    droppedNoSource := 0
    events := [] }

/-- Answers whether an at-rule is to stay, and counts it. -/
def judge (used : NameSet) (vs : Variables) (r : AtRule) (t : Tally) : Bool × Tally :=
  if !r.isFontFace then (true, t)
  else
    let family := ((families vs r).filterMap id).head?
    let t := { t with
      total := t.total + 1
      events := t.events ++ (familyValues r).flatMap (familyEvents used vs) }
    if !isUsed used vs r then
      (false, { t with
        droppedUnused := t.droppedUnused + 1
        dropped := t.dropped ++ [⟨family, .unused⟩] })
    else if !hasSource r then
      (false, { t with
        droppedNoSource := t.droppedNoSource + 1
        dropped := t.dropped ++ [⟨family, .noSource⟩]
        events := t.events ++
          [.message .debug .fontFaceCleanup "drop @font-face with no src descriptor"] })
    else (true, { t with kept := t.kept + 1 })

end Tally

/-- The sheet without the faces whose family is not in use or that have no source,
counted on the way. -/
def pruneFacesCounting (used : NameSet) (vs : Variables) (sheet : Sheet) : FaceOutcome :=
  let (left, t) := sheet.retainWith (Tally.judge used vs) .opening
  ⟨left, t.toFaceReport, t.events⟩

end CssPruning.Font
