import CssPruning.Event
import CssPruning.Font.Usage
import CssPruning.Json.Basic
import CssPruning.Value.Reader

/-!
# What a probe reports

A probe replies with the computed families of the elements that it saw above the
fold, one text per element, in the order of the document and with repetitions.
The texts are read like values of `font-family` in a sheet; one that cannot be
read is passed over with a warning.
-/

set_option autoImplicit false

namespace CssPruning.Probe

/-- The computed families of the elements above the fold. -/
structure Signals where
  families : List String
  deriving DecidableEq, Repr, Inhabited

namespace Signals

/-- The text that a JSON value is. -/
def familyOfReply : Json → Except Error String
  | .string s => .ok s
  | j => .error (.reply ("invalid type: " ++ j.kind ++ ", expected a string"))

/-- The signals that a reply holds: an array of texts and nothing else. -/
def ofReply : Json → Except Error Signals
  | .array items => Signals.mk <$> items.mapM familyOfReply
  | j => .error (.reply ("invalid type: " ++ j.kind ++ ", expected a sequence"))

/-- The names that a computed family names, in small letters. -/
def familyNames (family : String) : List String :=
  match Value.parse family with
  | .ok v =>
    ((Font.names .empty v).map fun name => Text.lower (Text.trimmed name)).filter (· != "")
  | .error _ => []

/-- What reading a computed family reports. -/
def familyEvents (family : String) : List Event :=
  match Value.parse family with
  | .ok v => Font.nameEvents v
  | .error e =>
    [.remark .warn .probe
      ("skipping computed font-family " ++ Text.quoted family ++ ": " ++ e.text)]

/-- Every name that the signals name. -/
def fontNames (s : Signals) : Font.NameSet :=
  Font.NameSet.addAll [] (s.families.flatMap familyNames)

/-- What gathering the names reports. -/
def fontNameEvents (s : Signals) : List Event := s.families.flatMap familyEvents

/-- The signals as a JSON value. -/
def toJson (s : Signals) : Json := .array (s.families.map Json.string)

end Signals

end CssPruning.Probe
