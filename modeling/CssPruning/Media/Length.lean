import CssPruning.Decimal.Reader
import CssPruning.Text.Ascii
import CssPruning.Text.Blank

/-!
# Lengths and ratios

A length is a decimal with a unit; without one it counts pixels.  Sixteen pixels
make an em, ninety-six an inch.
-/

set_option autoImplicit false

namespace CssPruning.Media

/-- A unit as a fraction of pixels. -/
def unitFactor (unit : String) : Option (Float × Float) :=
  match unit with
  | "" | "px" => some (1.0, 1.0)
  | "em" | "rem" => some (16.0, 1.0)
  | "in" => some (96.0, 1.0)
  | "cm" => some (96.0, 2.54)
  | "mm" => some (96.0, 25.4)
  | "q" => some (96.0, 101.6)
  | "pt" => some (96.0, 72.0)
  | "pc" => some (96.0, 6.0)
  | _ => none

/-- A character of a length's number. -/
def isNumeral (c : Char) : Bool := c.isDigit || c == '.' || c == '-' || c == '+'

/-- The pixels of a length, if the text is one. -/
def lengthPx (text : String) : Option Float := do
  let cs := Text.trim text.toList
  let value ← Decimal.read (cs.takeWhile isNumeral)
  let unit := Text.lowerAscii (String.ofList (Text.trim (cs.dropWhile isNumeral)))
  let (num, den) ← unitFactor unit
  return value * num / den

/-- The quotient of two decimals around a slash, or a decimal; a zero behind the
slash makes it no ratio. -/
def ratio (text : String) : Option Float :=
  let cs := text.toList
  match cs.dropWhile (· != '/') with
  | _ :: den => do
    let num ← Decimal.read (Text.trim (cs.takeWhile (· != '/')))
    let den ← Decimal.read (Text.trim den)
    if den == 0.0 then none else some (num / den)
  | [] => Decimal.read (Text.trim cs)

end CssPruning.Media
