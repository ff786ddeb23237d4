import CssPruning.Token.Scanner

/-!
# Reading decimals

A decimal is a sign, digits with a point among them or at either end, and an
exponent, or one of the words for the numbers that are not finite.  The nearest
double is its value.
-/

set_option autoImplicit false

namespace CssPruning.Decimal

/-- The number that digits spell. -/
def ofDigits (ds : List Char) : Nat := ds.foldl (fun n d => 10 * n + (d.toNat - '0'.toNat)) 0

/-- The double nearest to `digits * 10 ^ exponent`.  Beyond the bounds set on the
exponent the number is zero or infinite anyway. -/
def nearest (digits : Nat) (exponent : Int) : Float :=
  if digits = 0 then 0.0
  else
    let size := (Nat.log2 digits : Int)
    let e := max (-(size + 400)) (min 400 exponent)
    if 0 ≤ e then Float.ofScientific digits false e.toNat
    else Float.ofScientific digits true (-e).toNat

/-- A sign at the head of a text: is it a minus, and what follows. -/
def splitSign : List Char → Bool × List Char
  | '-' :: cs => (true, cs)
  | '+' :: cs => (false, cs)
  | cs => (false, cs)

/-- An exponent that is the whole of a text; the empty text is the exponent
zero. -/
def exponentOf : List Char → Option Int
  | [] => some 0
  | e :: cs =>
    if e == 'e' || e == 'E' then
      let (negative, ds) := splitSign cs
      if ds.isEmpty || !ds.all Char.isDigit then none
      else some (if negative then -(ofDigits ds : Int) else ofDigits ds)
    else none

/-- The words for infinity and for what is no number, in any letter case. -/
def wordValue (cs : List Char) : Option Float :=
  let w := cs.map Char.toLower
  if w == "inf".toList || w == "infinity".toList then some (1.0 / 0.0)
  else if w == "nan".toList then some (0.0 / 0.0)
  else none

/-- A decimal without a sign. -/
def magnitude (cs : List Char) : Option Float :=
  let whole := cs.takeWhile Char.isDigit
  let rest := cs.dropWhile Char.isDigit
  let (part, rest) := match rest with
    | '.' :: r => (r.takeWhile Char.isDigit, r.dropWhile Char.isDigit)
    | r => ([], r)
  if whole.isEmpty && part.isEmpty then wordValue cs
  else (exponentOf rest).map fun e => nearest (ofDigits (whole ++ part)) (e - part.length)

/-- The double that a text spells. -/
def read (cs : List Char) : Option Float :=
  let (negative, ds) := splitSign cs
  (magnitude ds).map fun x => if negative then -x else x

end CssPruning.Decimal
