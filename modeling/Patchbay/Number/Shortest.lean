import Patchbay.Number.BinaryFormat
import Patchbay.Number.Decimal

/-!
# The shortest decimal that reads back

A number of a binary format is the nearest one to every real in an interval around it, and any
decimal in that interval reads back as the number.  `BinaryFormat.shortest` takes the decimal with
the fewest digits: it tries the grids of multiples of `10 ^ t`, the coarsest first, and on each
grid only the two neighbours of the number, since if any point of a grid lies in the interval then
so does one of these.

All quantities are whole numbers of *quarters* of `10 ^ -places`: the number itself, half its
distance to the next number, and half (at a power of two, a quarter) of the distance to the one
before.
-/

namespace Patchbay

/-- A number with the bounds of the interval of reals that round to it, in quarters of the last
decimal place. -/
structure RoundingInterval where
  centre : Nat
  below : Nat
  above : Nat
  /-- Whether the two ends round to the number as well. -/
  closed : Bool
  deriving DecidableEq, Repr

namespace RoundingInterval

/-- Whether a point lies in the interval. -/
def contains (i : RoundingInterval) (x : Nat) : Bool :=
  if i.closed then i.centre ≤ x + i.below && x ≤ i.centre + i.above
  else i.centre < x + i.below && x < i.centre + i.above

/-- The point of the grid of multiples of `step` that lies in the interval, as a multiple: of the
two neighbours of the centre the nearer one, and of two equally near ones the upper. -/
def hit? (i : RoundingInterval) (step : Nat) : Option Nat :=
  let lower := i.centre / step
  match i.contains (lower * step), i.contains ((lower + 1) * step) with
  | true, true =>
    if i.centre - lower * step < (lower + 1) * step - i.centre then some lower
    else some (lower + 1)
  | true, false => some lower
  | false, true => some (lower + 1)
  | false, false => none

/-- The decimal found on the coarsest grid, at most `10 ^ t`, that has a point in the interval,
counted in units of the last place.  The grid of single units holds the centre itself. -/
def coarsest (i : RoundingInterval) : Nat → Nat
  | 0 => i.centre / 4
  | t + 1 =>
    match i.hit? (4 * Nat.pow 10 (t + 1)) with
    | some multiple => multiple * Nat.pow 10 (t + 1)
    | none => i.coarsest t

end RoundingInterval

namespace BinaryFormat

variable (f : BinaryFormat)

/-- The interval of reals that round to a finite magnitude.  Its ends belong to it when the
significand is even, and below a power of two the numbers lie twice as close. -/
def interval (magnitude : Nat) : RoundingInterval :=
  let unit := Nat.pow 2 (f.shift magnitude) * Nat.pow 5 f.places
  let isPower := f.hidden < magnitude && magnitude % f.hidden = 0
  { centre := 4 * (f.units magnitude * Nat.pow 5 f.places)
    below := if isPower then unit else 2 * unit
    above := 2 * unit
    closed := magnitude % 2 = 0 }

/-- **The shortest decimal** that rounds to a finite magnitude. -/
def shortest (magnitude : Nat) : Decimal :=
  let i := f.interval magnitude
  ⟨i.coarsest (i.centre.log2 / 3 + 1), f.places⟩

end BinaryFormat

end Patchbay
