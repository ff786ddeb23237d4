import CssPruning.Text.Cased
import CssPruning.Text.CaseIgnorable
import CssPruning.Text.LowerTable

/-!
# Lower case

Family names are compared in lower case, by the Unicode mapping.  Two letters
need more than a table: capital I with a dot becomes two characters, and a
capital sigma at the end of a word becomes the final small sigma.

A sigma ends a word when, passing over the characters that case rules ignore, a
cased letter stands before it and none stands after it.
-/

set_option autoImplicit false

namespace CssPruning.Text

/-- A code lies in one of some ranges. -/
def inRanges (ranges : List (Nat × Nat)) (n : Nat) : Bool :=
  ranges.any fun r => r.1 ≤ n && n ≤ r.2

/-- A letter with case. -/
def isCased (c : Char) : Bool := inRanges casedRanges c.toNat

/-- A character that case rules look past. -/
def isCaseIgnorable (c : Char) : Bool := inRanges caseIgnorableRanges c.toNat

/-- The code lies in a run. -/
def LowerRun.holds (r : LowerRun) (n : Nat) : Bool :=
  r.first ≤ n && n ≤ r.last && (n - r.first) % r.step == 0

/-- The small letter of a character by the simple mapping. -/
def lowerChar (c : Char) : Char :=
  if c.toNat < 0x80 then c.toLower
  else match lowerRuns.find? (·.holds c.toNat) with
    | some r => Char.ofNat (c.toNat + r.shift).toNat
    | none => c

/-- The first character that case rules do not look past is a cased letter. -/
def casedAhead (cs : List Char) : Bool :=
  (cs.dropWhile isCaseIgnorable).head?.any isCased

/-- The small form of a character between the text before it, last character
first, and the text after it. -/
def lowerAt (before : List Char) (c : Char) (after : List Char) : List Char :=
  if c == 'Σ' then [if casedAhead before && !casedAhead after then 'ς' else 'σ']
  else if c == 'İ' then ['i', '\u0307']
  else [lowerChar c]

/-- The rest of a text in lower case. -/
def lowerFrom (before : List Char) : List Char → List Char
  | [] => []
  | c :: cs => lowerAt before c cs ++ lowerFrom (c :: before) cs

/-- A text in lower case. -/
def lower (s : String) : String := String.ofList (lowerFrom [] s.toList)

end CssPruning.Text
