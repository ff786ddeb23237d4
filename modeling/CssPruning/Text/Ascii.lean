/-!
# ASCII letter case

Names of at-rules, properties, units and media features are compared without
regard to the case of ASCII letters; no other letter is touched.
-/

set_option autoImplicit false

namespace CssPruning.Text

/-- The text with its ASCII capitals made small. -/
def lowerAscii (s : String) : String := s.map Char.toLower

/-- Equality up to the case of ASCII letters. -/
def sameAscii (s t : String) : Bool := lowerAscii s == lowerAscii t

@[simp] theorem toList_lowerAscii (s : String) :
    (lowerAscii s).toList = s.toList.map Char.toLower := by
  simp [lowerAscii]

end CssPruning.Text
