import CssPruning.Token.Scanner

/-!
# Lines and columns

A place in a text, counted in characters, has a line and a column for people.
A carriage return, a line feed, the two together, and a form feed end a line;
the column counts UTF-16 code units.  Both start at one.
-/

set_option autoImplicit false

namespace CssPruning

/-- A line and a column, both counted from one. -/
structure Location where
  line : Nat
  column : Nat
  deriving DecidableEq, Repr, Inhabited

namespace Location

/-- The UTF-16 code units of a character. -/
def units (c : Char) : Nat := if 0x10000 ≤ c.toNat then 2 else 1

/-- The location after some more text. -/
def advance : Location → List Char → Location
  | l, [] => l
  | l, '\r' :: '\n' :: cs => advance ⟨l.line + 1, 1⟩ cs
  | l, c :: cs =>
    if Token.isLineEnd c then advance ⟨l.line + 1, 1⟩ cs
    else advance ⟨l.line, l.column + units c⟩ cs

/-- The location of a place in a text. -/
def ofOffset (text : List Char) (offset : Nat) : Location :=
  advance ⟨1, 1⟩ (text.take offset)

end Location

end CssPruning
