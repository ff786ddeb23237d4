import CssPruning.Media.Relevance
import CssPruning.Sheet.Retain
import CssPruning.Sheet.Writer

/-!
# Removing the media rules that no target needs

Every media rule with a prelude is judged by its canonical prelude, at any depth;
a media rule without one is kept unjudged, and so is any other at-rule.
-/

set_option autoImplicit false

namespace CssPruning.Media

/-- What a pass over the media rules did. -/
structure Report where
  /-- the canonical preludes of the removed rules, in order -/
  droppedQueries : List String
  evaluated : Nat
  skippedEmpty : Nat
  kept : Nat
  dropped : Nat
  deriving DecidableEq, Repr, Inhabited

/-- A sheet after the pass, the report and the events. -/
structure Outcome where
  sheet : Sheet
  report : Report
  events : List Event

/-- The query that a rule is judged by, if it is judged. -/
def judgedQuery (r : AtRule) : Option String :=
  if r.isMedia then r.preludeText.map AtRule.canonicalPrelude else none

/-- The rule survives for some targets. -/
def survives (targets : List Target) (r : AtRule) : Bool :=
  match judgedQuery r with
  | some query => relevantForAny query targets
  | none => true

/-- The media rule has no prelude to be judged by. -/
def isUnjudged (r : AtRule) : Bool := r.isMedia && r.preludeText.isNone

/-- The report of a list of verdicts. -/
def Report.ofVerdicts (vs : List Verdict) : Report :=
  let judged := vs.filter fun v => (judgedQuery v.rule).isSome
  let dropped := judged.filter fun v => !v.kept
  { droppedQueries := dropped.filterMap fun v => judgedQuery v.rule
    evaluated := judged.length
    skippedEmpty := vs.countP fun v => isUnjudged v.rule
    kept := judged.countP fun v => v.kept
    dropped := dropped.length }

/-- The events of a verdict. -/
def verdictEvents (targets : List Target) (v : Verdict) : List Event :=
  match judgedQuery v.rule with
  | none => []
  | some query =>
    relevanceForAnyEvents query targets ++
      [.message .debug .preformatting
        ((if v.kept then "KEEP: (" else "DROP: (") ++ query ++ ")")]

/-- The event that opens the pass. -/
def openingEvent (targets : List Target) (keepLarger : Bool) : Event :=
  ⟨.debug, .preformatting,
    [("match_configs", .text ("[" ++ ", ".intercalate (targets.map Target.traceText) ++ "]")),
      ("keep_larger_media_queries", .flag keepLarger),
      ("message", .text "BEFORE")]⟩

/-- The sheet without the media rules that none of the targets needs. -/
def prune (targets : List Target) (keepLarger : Bool) (sheet : Sheet) : Outcome :=
  let effective := Target.effective targets keepLarger
  let pruned := sheet.prune (survives effective)
  { sheet := pruned.sheet
    report := .ofVerdicts pruned.verdicts
    events := openingEvent effective keepLarger ::
      pruned.verdicts.flatMap (verdictEvents effective) }

end CssPruning.Media
