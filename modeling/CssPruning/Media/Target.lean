import CssPruning.Decimal.Layout
import CssPruning.Error
import CssPruning.Media.Length
import CssPruning.Text.Quoted

/-!
# Targets

A target is an environment that a sheet is pruned for: the kind of medium and
the size of its viewport.
-/

set_option autoImplicit false

namespace CssPruning

/-- The kinds of medium that can be a target. -/
inductive Medium where
  | screen
  | print
  deriving DecidableEq, Repr, Inhabited

/-- The name of a medium in queries and configurations. -/
def Medium.word : Medium → String
  | screen => "screen"
  | print => "print"

/-- A length in pixels. -/
structure Length where
  px : Float
  deriving Inhabited, BEq

namespace Length

/-- A length that a configuration may have: finite and not negative. -/
def isValid (px : Float) : Bool := px.isFinite && 0.0 ≤ px

/-- The length of a number of pixels. -/
def ofPx? (px : Float) : Except Error Length :=
  if isValid px then .ok ⟨px⟩
  else .error (.invalidArgument ("not a valid length: " ++ Decimal.write .plain px))

/-- The length that a text spells. -/
def parse (text : String) : Except Error Length :=
  let unusable := .error (.invalidArgument ("not a valid length: " ++ Text.quoted text))
  match Media.lengthPx text with
  | some px => if isValid px then .ok ⟨px⟩ else unusable
  | none => unusable

/-- The text of a length. -/
def text (l : Length) : String := Decimal.write .plain l.px ++ "px"

end Length

/-- An environment that a sheet is pruned for. -/
structure Target where
  medium : Medium
  width : Length
  height : Length
  deriving Inhabited, BEq

namespace Target

/-- A screen of some size in pixels. -/
def screen (width height : Float) : Target := ⟨.screen, ⟨width⟩, ⟨height⟩⟩

/-- The text of a target. -/
def text (t : Target) : String := t.medium.word ++ " " ++ t.width.text ++ "x" ++ t.height.text

/-- The text of a target in traces. -/
def traceText (t : Target) : String :=
  let medium := match t.medium with
    | .screen => "Screen"
    | .print => "Print"
  "MatchConfig \x7b media_type: " ++ medium
    ++ ", width: Length(" ++ Decimal.write .precise t.width.px
    ++ "), height: Length(" ++ Decimal.write .precise t.height.px ++ ") \x7d"

/-- A screen larger than any, which stands for the viewports larger than all
targets. -/
def larger : Target := screen 99999.0 99999.0

/-- The targets to test against: with the larger screen if larger viewports are
to be kept. -/
def effective (targets : List Target) (keepLarger : Bool) : List Target :=
  if keepLarger then targets ++ [larger] else targets

end Target

end CssPruning
