import CssPruning.Media.Parser
import CssPruning.Media.Target

/-!
# Does a query match a target?

A target answers the features that follow from its viewport: width and height,
those of the device, the aspect ratio and the orientation.  Any other feature has
no value, and its condition fails.
-/

set_option autoImplicit false

namespace CssPruning.Media

/-- What a target answers for a feature. -/
inductive Answer where
  | length (px : Float)
  | ratio (r : Float)
  | orientation (name : String)

/-- The answer of a target for a feature. -/
def answer (feature : String) (t : Target) : Option Answer :=
  let width := t.width.px
  let height := t.height.px
  match feature with
  | "width" | "device-width" => some (.length width)
  | "height" | "device-height" => some (.length height)
  | "aspect-ratio" | "device-aspect-ratio" =>
    if 0.0 < height then some (.ratio (width / height)) else none
  | "orientation" => some (.orientation (if width ≤ height then "portrait" else "landscape"))
  | _ => none

/-- Numbers closer than this count as equal. -/
def tolerance : Float := 1e-9

/-- A number meets an expected one, from the side of the bound if there is one. -/
def meets (actual : Float) (bound : Option Bound) (expected : Float) : Bool :=
  match bound with
  | some .min => expected - tolerance ≤ actual
  | some .max => actual ≤ expected + tolerance
  | none => (actual - expected).abs ≤ tolerance

namespace Condition

/-- A condition without a value: the feature is there, and is not zero. -/
def holdsBare (c : Condition) : Answer → Bool
  | .length x | .ratio x => c.bound.isNone && x != 0.0
  | .orientation _ => c.bound.isNone

/-- A condition with a value. -/
def holdsFor (c : Condition) (value : String) : Answer → Bool
  | .length x => (lengthPx value).any (meets x c.bound)
  | .ratio x => (ratio value).any (meets x c.bound)
  | .orientation name =>
    c.bound.isNone && Text.sameAscii name (Text.trimmed value)

/-- The condition holds for a target. -/
def holds (c : Condition) (t : Target) : Bool :=
  match answer c.feature t with
  | none => false
  | some a =>
    match c.value with
    | none => c.holdsBare a
    | some value => c.holdsFor value a

end Condition

namespace Query

/-- The target is of the query's media type. -/
def typeMatches (q : Query) (t : Target) : Bool :=
  q.mediaType == "all" || q.mediaType == t.medium.word

/-- The query matches a target: type and conditions, or the opposite of both. -/
def matchesTarget (q : Query) (t : Target) : Bool :=
  (q.typeMatches t && q.conditions.all (·.holds t)) != q.negated

end Query

/-- Some query of a list matches a target. -/
def matchesText (text : String) (t : Target) : Except QueryError Bool :=
  (parseList text).map fun queries => queries.any (·.matchesTarget t)

end CssPruning.Media
