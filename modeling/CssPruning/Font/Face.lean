import CssPruning.Font.Usage
import CssPruning.Sheet.Retain

/-!
# Removing font faces that paint nothing

A font face is kept if it has a source and every family that it declares is in
use.  A face without a declared family counts as used.
-/

set_option autoImplicit false

namespace CssPruning.Font

/-- Why a face was removed. -/
inductive DropReason where
  | unused
  | noSource
  deriving DecidableEq, Repr, Inhabited

/-- A face that was removed: its family in small letters, if it has one. -/
structure DroppedFace where
  family : Option String
  reason : DropReason
  deriving DecidableEq, Repr, Inhabited

/-- What a pass over the font faces did. -/
structure FaceReport where
  dropped : List DroppedFace
  total : Nat
  kept : Nat
  droppedUnused : Nat
  droppedNoSource : Nat
  deriving DecidableEq, Repr, Inhabited

/-- A sheet after the pass, the report and the events. -/
structure FaceOutcome where
  sheet : Sheet
  report : FaceReport
  events : List Event

/-! ## One face -/

/-- The values of the families that a face declares. -/
def familyValues (face : AtRule) : List Value :=
  (face.declarations.filter (·.propertyName == "font-family")).map (·.value)

/-- The family that a value names first, in small letters. -/
def firstFamily (vs : Variables) (v : Value) : Option String :=
  (names vs v).head?.map Text.lower

/-- The families that a face declares; `none` for a value that names none. -/
def families (vs : Variables) (face : AtRule) : List (Option String) :=
  (familyValues face).map (firstFamily vs)

/-- Every family that the face declares is in use. -/
def isUsed (used : NameSet) (vs : Variables) (face : AtRule) : Bool :=
  (families vs face).all fun f => f.any used.contains

/-- The face says where its font is. -/
def hasSource (face : AtRule) : Bool := face.declarations.any (·.propertyName == "src")

/-- Why the face is to be removed, if it is. -/
def dropReason (used : NameSet) (vs : Variables) (face : AtRule) : Option DropReason :=
  if !isUsed used vs face then some .unused
  else if !hasSource face then some .noSource
  else none

/-- The at-rule is no face, or one to keep. -/
def survives (used : NameSet) (vs : Variables) (r : AtRule) : Bool :=
  !r.isFontFace || (dropReason used vs r).isNone

/-! ## Reports and events -/

/-- The entry of a face for the report, if it is removed. -/
def droppedFace (used : NameSet) (vs : Variables) (face : AtRule) : Option DroppedFace :=
  (dropReason used vs face).map fun reason => ⟨((families vs face).filterMap id).head?, reason⟩

/-- The report of a list of verdicts. -/
def FaceReport.ofVerdicts (used : NameSet) (vs : Variables) (verdicts : List Verdict) :
    FaceReport :=
  let faces := (verdicts.map Verdict.rule).filter AtRule.isFontFace
  let dropped := faces.filterMap (droppedFace used vs)
  { dropped
    total := faces.length
    kept := faces.countP fun f => (dropReason used vs f).isNone
    droppedUnused := dropped.countP fun d => d.reason == .unused
    droppedNoSource := dropped.countP fun d => d.reason == .noSource }

/-- What looking at a declared family reports. -/
def familyEvents (used : NameSet) (vs : Variables) (v : Value) : List Event :=
  nameEvents v ++
    match firstFamily vs v with
    | some family =>
      if used.contains family then []
      else [.message .debug .fontFaceCleanup ("drop unused @font-face: " ++ family)]
    | none => [.message .debug .fontFaceCleanup "drop @font-face with undecodable family"]

/-- What looking at an at-rule reports. -/
def faceEvents (used : NameSet) (vs : Variables) (r : AtRule) : List Event :=
  if r.isFontFace then
    (familyValues r).flatMap (familyEvents used vs) ++
      if dropReason used vs r == some .noSource then
        [.message .debug .fontFaceCleanup "drop @font-face with no src descriptor"]
      else []
  else []

/-! ## A whole sheet -/

/-- The sheet without the faces whose family is not in use or that have no
source. -/
def pruneFaces (used : NameSet) (vs : Variables) (sheet : Sheet) : FaceOutcome :=
  let pruned := sheet.prune (survives used vs)
  { sheet := pruned.sheet
    report := .ofVerdicts used vs pruned.verdicts
    events := pruned.verdicts.flatMap fun v => faceEvents used vs v.rule }

/-- The sheet without the faces that it does not use itself, and the usage found
in it. -/
def removeUnusedFaces (vs : Variables) (sheet : Sheet) : Usage × FaceOutcome :=
  let u := usage vs sheet
  let outcome := pruneFaces u.used u.known sheet
  (u, { outcome with events := usageEvents vs sheet ++ outcome.events })

end CssPruning.Font
