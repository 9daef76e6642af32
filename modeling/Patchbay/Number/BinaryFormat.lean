/-!
# Binary floating-point formats

A finite number of a binary format is a whole number of *units*, the unit being the least positive
number `2 ^ -places`.  The encodings without their sign bit, read as natural numbers, list the
non-negative numbers of the format in ascending order, so an encoding is called a *magnitude* here
and rounding is a function into magnitudes.

* `BinaryFormat.units`: the number of units that a magnitude stands for.
* `BinaryFormat.round`: the magnitude nearest to a fraction, ties to even, overflow to infinity.
* `BinaryFormat.roundScientific`: the same for `digits * 10 ^ exponent`.
-/

namespace Patchbay

/-- A binary interchange format: significand width, binary places of the least unit, and the first
exponent field that no longer stands for a finite number. -/
structure BinaryFormat where
  /-- Bits of the significand, the leading one included. -/
  precision : Nat
  /-- The least positive number is `2 ^ -places`. -/
  places : Nat
  /-- Exponent field of infinity and of the NaNs. -/
  topExponent : Nat
  deriving DecidableEq, Repr

/-- Division rounded to the nearest whole number, a half going to the even neighbour. -/
def roundHalfEven (num den : Nat) : Nat :=
  let quotient := num / den
  let twice := 2 * (num % den)
  if twice < den then quotient
  else if den < twice then quotient + 1
  else if quotient % 2 = 0 then quotient
  else quotient + 1

namespace BinaryFormat

def single : BinaryFormat := ⟨24, 149, 255⟩

def double : BinaryFormat := ⟨53, 1074, 2047⟩

variable (f : BinaryFormat)

/-- The weight of the leading bit of a normal significand, which is also the number of magnitudes
that share an exponent field. -/
def hidden : Nat := Nat.pow 2 (f.precision - 1)

/-- The magnitude of infinity; larger magnitudes are NaNs. -/
def infinity : Nat := f.topExponent * f.hidden

/-- The exponent of a magnitude above the least one. -/
def shift (magnitude : Nat) : Nat := magnitude / f.hidden - 1

/-- The significand of a magnitude, with the leading one of a normal number put back. -/
def significand (magnitude : Nat) : Nat :=
  if magnitude < f.hidden then magnitude else f.hidden + magnitude % f.hidden

/-- The number that a finite magnitude stands for, counted in units of `2 ^ -places`. -/
def units (magnitude : Nat) : Nat := f.significand magnitude * Nat.pow 2 (f.shift magnitude)

/-- **Rounding.**  The magnitude nearest to `num / den`, ties to even.  Below `2 ^ precision` units
the grid is the whole units themselves; above, its step doubles with every further bit. -/
def round (num den : Nat) : Nat :=
  let scaled := num * Nat.pow 2 f.places
  let step := (scaled / den).log2 - (f.precision - 1)
  min (step * f.hidden + roundHalfEven scaled (den * Nat.pow 2 step)) f.infinity

/-- The magnitude nearest to `digits * 10 ^ exponent`.  An exponent so large or so small that it
settles the answer is not expanded. -/
def roundScientific (digits : Nat) (exponent : Int) : Nat :=
  if digits = 0 then 0
  else if (f.topExponent : Int) ≤ exponent then f.infinity
  else if (digits.log2 : Int) + exponent + f.places + 2 ≤ 0 then 0
  else if 0 ≤ exponent then f.round (digits * Nat.pow 10 exponent.toNat) 1
  else f.round digits (Nat.pow 10 (-exponent).toNat)

end BinaryFormat

end Patchbay
