import CssPruning.Event
import CssPruning.Media.Match

/-!
# Is a query relevant for a target?

Relevance keeps more than matching does: dropping rules that were needed breaks
the page, and keeping rules that were not only costs bytes.  A query is
irrelevant only if

* it has no conditions and asks for the other medium,
* all its conditions are minimums, and the target meets none of them, or
* its chain of several conditions fails for the target.

Conditions on the density of pixels, which no target can answer, do not count in
a chain.  A text that is no media query list is irrelevant: the target will not
understand it either.
-/

set_option autoImplicit false

namespace CssPruning.Media

/-- A type without conditions.  Only the two media that can be targets are
judged. -/
def bareTypeRelevant (mediaType : String) (negated : Bool) (t : Target) : Bool :=
  if mediaType == "screen" || mediaType == "print" then
    (mediaType == t.medium.word) != negated
  else true

/-- The condition is about the density of pixels. -/
def Condition.isDensity (c : Condition) : Bool :=
  "device-pixel-ratio".toList.reverse.isPrefixOf c.feature.toList.reverse

/-- A chain of conditions, those about the density of pixels left out. -/
def chainRelevant (conditions : List Condition) (negated : Bool) (t : Target) : Bool :=
  let considered := conditions.filter fun c => !c.isDensity
  if considered.isEmpty then true
  else (Query.ofConditions considered).matchesTarget t != negated

namespace Query

/-- The query asks for the opposite.  A type `not` is a keyword that lost its
type. -/
def inverse (q : Query) : Bool := q.negated || q.mediaType == "not"

/-- One condition of the query speaks for keeping it. -/
def conditionRelevant (q : Query) (t : Target) (c : Condition) : Bool :=
  if c.bound == some .min then (ofConditions [c]).matchesTarget t != q.inverse
  else if 1 < q.conditions.length then chainRelevant q.conditions q.inverse t
  else true

/-- The query is relevant for a target. -/
def relevant (q : Query) (t : Target) : Bool :=
  if q.conditions.isEmpty then bareTypeRelevant q.mediaType q.inverse t
  else q.conditions.any (q.conditionRelevant t)

end Query

/-- Some query of a list is relevant for a target. -/
def relevantText (text : String) (t : Target) : Bool :=
  match parseList text with
  | .ok queries => queries.any (·.relevant t)
  | .error _ => false

/-- What asking for the relevance of a list reports. -/
def relevanceEvents (text : String) : List Event :=
  match parseList text with
  | .ok _ => []
  | .error e => [⟨.trace, .preformatting,
      [("error", .text e.message), ("message", .text "unparseable media query")]⟩]

/-- The list is relevant for some target. -/
def relevantForAny (text : String) (targets : List Target) : Bool :=
  targets.any (relevantText text)

/-- What asking for the relevance of a list for some target reports.  A list that
cannot be read is relevant for none, so that every target is asked. -/
def relevanceForAnyEvents (text : String) (targets : List Target) : List Event :=
  targets.flatMap fun _ => relevanceEvents text

end CssPruning.Media
