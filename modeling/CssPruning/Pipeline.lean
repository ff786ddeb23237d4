import CssPruning.Font.Face
import CssPruning.Media.Pruning
import CssPruning.Probe.Browser
import CssPruning.Sheet.Reader

/-!
# The two stages

*Preformatting* removes the media rules that no target needs, before a probe sees
the sheet.  *Postformatting* removes the font faces that are not in use, if need
be judged by what a probe saw rendered, and then the comments at the root.

`process` runs both on a text without a probe, `processWithProbe` with one in
between.
-/

set_option autoImplicit false

namespace CssPruning

/-- What a run is to do.  It holds no state, so it serves many sheets. -/
structure Pipeline where
  targets : List Target
  keepLarger : Bool
  /-- a font must also have been seen by the probe to count as used -/
  requireRendered : Bool
  stripComments : Bool
  deriving Inhabited, BEq

namespace Pipeline

/-- The pipeline for some targets, with everything else as usual. -/
def ofTargets (targets : List Target) : Pipeline := ⟨targets, false, false, true⟩

/-! ## Stages -/

/-- The sheet without the media rules that no target needs. -/
def preformat (p : Pipeline) (sheet : Sheet) : Media.Outcome :=
  let outcome := Media.prune p.targets p.keepLarger sheet
  let text := "evaluated " ++ toString outcome.report.evaluated ++ " @media, dropped "
    ++ toString outcome.report.dropped
  { outcome with
    events := outcome.events ++ [.milestone .preformatting "preformat" text] }

/-- What postformatting did. -/
structure PostReport where
  used : Font.NameSet
  faces : Font.FaceReport
  commentsRemoved : Nat
  deriving DecidableEq, Repr, Inhabited

/-- A sheet after postformatting, the report and the events. -/
structure PostOutcome where
  sheet : Sheet
  report : PostReport
  events : List Event

/-- The names that the probe saw rendered; none without a probe. -/
def rendered (signals : Option Probe.Signals) : Font.NameSet :=
  match signals with
  | some s => s.fontNames
  | none => []

/-- The names that count as used. -/
def countedFonts (p : Pipeline) (used : Font.NameSet) (signals : Option Probe.Signals) :
    Font.NameSet :=
  if p.requireRendered then used.filter (rendered signals).contains else used

/-- What comparing with the rendered names reports. -/
def renderedEvents (p : Pipeline) (signals : Option Probe.Signals) : List Event :=
  if p.requireRendered then
    (match signals with
      | some s => s.fontNameEvents
      | none => []) ++
    if (rendered signals).isEmpty then
      [.remark .warn .fontFaceCleanup
        "no rendered fonts reported, every @font-face counts as unused"]
    else []
  else []

/-- The sheet without the font faces that are not in use, and without comments at
its root if these are to go. -/
def postformat (p : Pipeline) (sheet : Sheet) (signals : Option Probe.Signals) : PostOutcome :=
  let usage := Font.usage .empty sheet
  let used := p.countedFonts usage.used signals
  let faces := Font.pruneFaces used usage.known sheet
  let comments := if p.stripComments then Sheet.rootComments faces.sheet else 0
  let text := "kept " ++ toString faces.report.kept ++ " @font-face, dropped "
    ++ toString faces.report.dropped.length ++ ", removed " ++ toString comments ++ " comments"
  { sheet := if p.stripComments then Sheet.stripComments faces.sheet else faces.sheet
    report := ⟨used, faces.report, comments⟩
    events := Font.usageEvents .empty sheet ++ p.renderedEvents signals ++ faces.events
      ++ [.milestone .fontFaceCleanup "postformat" text] }

/-! ## Runs -/

/-- What a run gives. -/
structure Output where
  css : String
  media : Media.Report
  post : PostReport
  deriving DecidableEq, Repr, Inhabited

/-- How much a run took away: at-rules, not counting what is inside of them, and
comments. -/
def Output.removedCount (o : Output) : Nat :=
  o.media.dropped + o.post.faces.dropped.length + o.post.commentsRemoved

/-- A result and what was reported on the way to it. -/
structure Logged (α : Type) where
  result : Except Error α
  events : List Event

/-- The output once the media rules are done. -/
def complete (p : Pipeline) (media : Media.Outcome) (signals : Option Probe.Signals) :
    Output × List Event :=
  let post := p.postformat media.sheet signals
  (⟨post.sheet.write, media.report, post.report⟩, post.events)

/-- Reads a sheet, and runs both stages without a probe. -/
def process (p : Pipeline) (css : String) : Logged Output :=
  match Sheet.parse css with
  | .error e => ⟨.error e, []⟩
  | .ok sheet =>
    let media := p.preformat sheet
    let (output, events) := p.complete media none
    ⟨.ok output, media.events ++ events⟩

/-- Gives a browser the sheet, and if it takes it has it probed. -/
def render {σ : Type} (b : Probe.Browser σ) (css : String) (s : σ) : Probe.Outcome σ :=
  match b.apply css s with
  | (.error e, s) => ⟨.error e, [], s⟩
  | (.ok (), s) => Probe.run b s

/-- Reads a sheet, has it probed between the stages, and runs both.  Answers the
browser afterwards, too. -/
def processWithProbe {σ : Type} (p : Pipeline) (css : String) (b : Probe.Browser σ) (s : σ) :
    Logged Output × σ :=
  match Sheet.parse css with
  | .error e => (⟨.error e, []⟩, s)
  | .ok sheet =>
    let media := p.preformat sheet
    let probed := render b media.sheet.write s
    match probed.signals with
    | .error e =>
      (⟨.error e, media.events ++ probed.events ++
        [.remark .error .probe ("rendering step failed: " ++ e.text)]⟩, probed.state)
    | .ok signals =>
      let seen := Event.remark .info .probe
        (toString signals.families.length ++ " above-fold elements reported")
      let (output, events) := p.complete media (some signals)
      (⟨.ok output, media.events ++ probed.events ++ seen :: events⟩, probed.state)

end Pipeline

end CssPruning
