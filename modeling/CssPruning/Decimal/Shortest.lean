/-!
# The fewest digits that read back

A finite binary number is `m * 2 ^ q`.  The reals that round to it form an
interval around it, ends included exactly when `m` is even.  On the grid of the
multiples of a power of ten, the number has two neighbours.  The coarsest grid
one of whose neighbours lies in the interval gives the shortest decimal; of two
neighbours that both lie in it, the nearer.

All of it is exact arithmetic on natural numbers.
-/

set_option autoImplicit false

namespace CssPruning.Decimal

/-- A positive finite binary number, `m * 2 ^ q`, and whether the gap below it is
half the gap above. -/
structure Binary where
  m : Nat
  q : Int
  narrowBelow : Bool
  deriving DecidableEq, Repr

/-- A decimal, `digits * 10 ^ exponent`. -/
structure Scaled where
  digits : Nat
  exponent : Int
  deriving DecidableEq, Repr

/-- The magnitude of a finite double from its bits. -/
def Binary.ofBits (bits : UInt64) : Binary :=
  let fraction := (bits &&& 0xFFFFFFFFFFFFF).toNat
  let biased := ((bits >>> 52) &&& 0x7FF).toNat
  if biased = 0 then ⟨fraction, -1074, false⟩
  else ⟨0x10000000000000 + fraction, (biased : Int) - 1075, fraction = 0 && 1 < biased⟩

/-- An exponent split into a factor above and a factor below the line. -/
def power (base : Nat) (e : Int) : Nat × Nat :=
  if 0 ≤ e then (Nat.pow base e.toNat, 1) else (1, Nat.pow base (-e).toNat)

/-- The decimals of a grid that read back to the number, the neighbour below
first, as multiples of the grid's step; with twice the distance of the lower one
and the step, in one unit. -/
structure Neighbours where
  below : Nat
  belowReads : Bool
  aboveReads : Bool
  twiceGap : Nat
  step : Nat

/-- The neighbours of a number on the grid of the multiples of `10 ^ e`. -/
def neighbours (b : Binary) (e : Int) : Neighbours :=
  let two := power 2 (b.q - 2)
  let ten := power 10 e
  let unit := two.1 * ten.2
  let step := ten.1 * two.2
  let middle := 4 * b.m * unit
  let low := (4 * b.m - if b.narrowBelow then 1 else 2) * unit
  let high := (4 * b.m + 2) * unit
  let below := middle / step
  let inside (x : Nat) : Bool :=
    if b.m % 2 = 0 then low ≤ x && x ≤ high else low < x && x < high
  { below
    belowReads := 0 < below && inside (below * step)
    aboveReads := inside ((below + 1) * step)
    twiceGap := 2 * (middle - below * step)
    step }

/-- The multiple to take on a grid, if one reads back.  `up` says which of two
equally near ones. -/
def Neighbours.choose (n : Neighbours) (up : Bool) : Option Nat :=
  if n.belowReads && n.aboveReads then
    let takeAbove := n.step < n.twiceGap
      || (n.step == n.twiceGap && (up || n.below % 2 == 1))
    some (if takeAbove then n.below + 1 else n.below)
  else if n.belowReads then some n.below
  else if n.aboveReads then some (n.below + 1)
  else none

/-- The first grid with a hit, from `10 ^ e` down. -/
def search (b : Binary) (up : Bool) : Nat → Int → Scaled
  | 0, e => ⟨(neighbours b e).below, e⟩
  | grids + 1, e =>
    match (neighbours b e).choose up with
    | some d => ⟨d, e⟩
    | none => search b up grids (e - 1)

/-- The shortest decimal of a number.  Of two equally near ones of that length it
takes the larger if `up` is set, and otherwise the one with an even last digit.
A double lies below the first grid and needs at most seventeen digits. -/
def shortest (b : Binary) (up : Bool) : Scaled :=
  search b up 24 (((Nat.log2 b.m : Int) + b.q + 1) * 30103 / 100000 + 2)

end CssPruning.Decimal
