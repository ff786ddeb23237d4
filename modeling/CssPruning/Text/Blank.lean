/-!
# Blank characters, trimming and words

One class of blank characters serves every place of the library that works on
text rather than on tokens: trimming preludes and values, collapsing runs of
blanks, and the gaps of media queries.  It is the Unicode class `White_Space`.

Everything is over `List Char`; the `String` forms wrap the list forms.
-/

set_option autoImplicit false

namespace CssPruning.Text

/-- The Unicode class `White_Space`, twenty-five characters. -/
def isBlank (c : Char) : Bool :=
  let n := c.toNat
  (0x09 ≤ n && n ≤ 0x0D) || n == 0x20 || n == 0x85 || n == 0xA0 || n == 0x1680
    || (0x2000 ≤ n && n ≤ 0x200A) || n == 0x2028 || n == 0x2029 || n == 0x202F
    || n == 0x205F || n == 0x3000

/-! ## Trimming -/

/-- The text without the blanks it starts with. -/
def trimStart (cs : List Char) : List Char := cs.dropWhile isBlank

/-- The text without the blanks it ends with. -/
def trimEnd (cs : List Char) : List Char := (cs.reverse.dropWhile isBlank).reverse

/-- The text without the blanks at either end. -/
def trim (cs : List Char) : List Char := trimEnd (trimStart cs)

/-- `trim` on strings. -/
def trimmed (s : String) : String := String.ofList (trim s.toList)

@[simp] theorem trim_nil : trim [] = [] := rfl

@[simp] theorem toList_trimmed (s : String) : (trimmed s).toList = trim s.toList := by
  simp [trimmed]

/-! ## Words -/

/-- The maximal runs of characters that are not blank, in order.  A character
stands in the word of the character after it unless that one is blank. -/
def words : List Char → List (List Char)
  | [] => []
  | c :: cs =>
    if isBlank c then words cs
    else if cs.head?.all isBlank then [c] :: words cs
    else match words cs with
      | w :: ws => (c :: w) :: ws
      | [] => [[c]]

/-- The words joined by single spaces. -/
def collapse (cs : List Char) : List Char := [' '].intercalate (words cs)

end CssPruning.Text
