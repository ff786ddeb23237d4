import CssPruning.Json.Basic
import CssPruning.Pipeline

/-!
# Configurations

A configuration says what a pipeline is to do.  One that leaves everything out
means a screen of ordinary size.  A pipeline without a target would drop every
media rule, so that a configuration without one is refused, unless larger
viewports are kept.

A configuration is written as a JSON object with the fields in a fixed order,
lengths as numbers of pixels.
-/

set_option autoImplicit false

namespace CssPruning

/-- A target as a configuration has it. -/
def Target.toJson (t : Target) : Json :=
  .object [
    ("type", .string t.medium.word),
    ("width", .float t.width.px),
    ("height", .float t.height.px)]

namespace Pipeline

/-- The target of a configuration that names none. -/
def standardTargets : List Target := [.screen 1300.0 900.0]

/-- What an empty configuration means. -/
def standard : Pipeline := ofTargets standardTargets

/-- Some media rule can be relevant for the pipeline. -/
def isUsable (p : Pipeline) : Bool := !p.targets.isEmpty || p.keepLarger

/-- The pipeline, unless it would silently drop every media rule. -/
def validated (p : Pipeline) : Except Error Pipeline :=
  if p.isUsable then .ok p else .error (.config "at least one match config is required")

theorem validated_eq_ok_iff {p q : Pipeline} :
    p.validated = .ok q ↔ p = q ∧ p.isUsable = true := by
  unfold validated
  split <;> simp_all

/-- The pipeline as a configuration has it. -/
def toJson (p : Pipeline) : Json :=
  .object [
    ("match_configs", .array (p.targets.map Target.toJson)),
    ("keep_larger_media_queries", .bool p.keepLarger),
    ("require_rendered_fonts", .bool p.requireRendered),
    ("strip_comments", .bool p.stripComments)]

end Pipeline

end CssPruning
