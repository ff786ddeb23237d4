import CssPruning.Decimal.Shortest

/-!
# Decimal notation

How the shortest decimal of a number is set out.  A `Layout` says between which
places of the point the notation is positional, and whether a whole number keeps
a point and a zero; elsewhere there is one digit before the point, and an
exponent.  The library writes numbers in three layouts.
-/

set_option autoImplicit false

namespace CssPruning.Decimal

/-- Decisions of a notation.  The place of the point is counted from the first
digit: that of `0.1` is zero, that of `12` is two. -/
structure Layout where
  /-- the first and the last place of the point with positional notation -/
  positional : Option (Int × Int)
  /-- a whole number ends in `.0` -/
  keepsPoint : Bool
  /-- of two shortest decimals that are equally near, the larger -/
  tieUp : Bool
  /-- an exponent that is not negative has a plus sign -/
  plusSign : Bool

namespace Layout

/-- For messages: always positional, and whole numbers have no point. -/
def plain : Layout := ⟨none, false, true, false⟩

/-- For traces: positional from `0.0001` to below `10 ^ 16`. -/
def precise : Layout := ⟨some (-3, 16), true, true, false⟩

/-- For configuration texts: positional from `0.00001` to below `10 ^ 16`; elsewhere the
exponent always has a sign, as in `1e+16`. -/
def compact : Layout := ⟨some (-4, 16), true, false, true⟩

/-- The layout is positional at a place of the point. -/
def isPositional (l : Layout) (place : Int) : Bool :=
  match l.positional with
  | some (first, last) => first ≤ place && place ≤ last
  | none => true

end Layout

/-- The digits of a number without the zeros at its end. -/
def significantDigits (n : Nat) : List Char :=
  ((Nat.toDigits 10 n).reverse.dropWhile (· == '0')).reverse

/-- Positional notation: digits, with the point at a place. -/
def positional (keepsPoint : Bool) (digits : List Char) (place : Int) : List Char :=
  let tail := if keepsPoint then ['.', '0'] else []
  if place ≤ 0 then ['0', '.'] ++ List.replicate (-place).toNat '0' ++ digits
  else if digits.length ≤ place.toNat then
    digits ++ List.replicate (place.toNat - digits.length) '0' ++ tail
  else digits.take place.toNat ++ '.' :: digits.drop place.toNat

/-- One digit, the others behind a point, and an exponent. -/
def scientific (plusSign : Bool) (digits : List Char) (place : Int) : List Char :=
  let plus := if plusSign && 1 ≤ place then ['+'] else []
  let mantissa := match digits with
    | [] => ['0']
    | [d] => [d]
    | d :: ds => d :: '.' :: ds
  mantissa ++ 'e' :: plus ++ (toString (place - 1)).toList

/-- The text of a number in a layout. -/
def write (l : Layout) (x : Float) : String :=
  if x.isNaN then "NaN"
  else
    let bits := x.toBits
    let sign := if bits >>> 63 == 1 then ['-'] else []
    if x.isInf then String.ofList (sign ++ "inf".toList)
    else
      let b := Binary.ofBits bits
      if b.m = 0 then String.ofList (sign ++ positional l.keepsPoint ['0'] 1)
      else
        let s := shortest b l.tieUp
        let place := (Nat.toDigits 10 s.digits).length + s.exponent
        let digits := significantDigits s.digits
        String.ofList <| sign ++
          if l.isPositional place then positional l.keepsPoint digits place
          else scientific l.plusSign digits place

end CssPruning.Decimal
