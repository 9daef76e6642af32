import Patchbay.Number.Shortest

/-!
# Numbers of the 32-bit and the 64-bit format

Parameter values are numbers of the 32-bit format, kept as their bits so that the sign of zero and
every NaN survive.  The 64-bit format occurs where a decimal is read: a decimal with a fraction or
an exponent is first rounded to 64 bits and then to 32.
-/

namespace Patchbay

/-- A number of the 32-bit format, as its bits. -/
structure Binary32 where
  bits : UInt32
  deriving DecidableEq, Repr, Inhabited

namespace Binary32

/-- The number with the given sign and magnitude. -/
def ofMagnitude (negative : Bool) (magnitude : Nat) : Binary32 :=
  ⟨UInt32.ofNat ((if negative then Nat.pow 2 31 else 0) + magnitude)⟩

def zero : Binary32 := ⟨0⟩

/-- Whether the sign bit is set. -/
def negative (x : Binary32) : Bool := Nat.pow 2 31 ≤ x.bits.toNat

def magnitude (x : Binary32) : Nat := x.bits.toNat % Nat.pow 2 31

/-- Whether the bits stand for no number. -/
def isNaN (x : Binary32) : Bool := BinaryFormat.single.infinity < x.magnitude

/-- Whether the number is one of the two infinities. -/
def isInfinite (x : Binary32) : Bool := x.magnitude = BinaryFormat.single.infinity

/-- Whether the number is neither infinite nor a NaN. -/
def isFinite (x : Binary32) : Bool := x.magnitude < BinaryFormat.single.infinity

/-- Numeric equality: a NaN equals nothing, and the two zeros are equal. -/
def equals (x y : Binary32) : Bool :=
  !x.isNaN && !y.isNaN && (x.bits = y.bits || (x.magnitude = 0 && y.magnitude = 0))

/-- The number nearest to an integer. -/
def ofInt (z : Int) : Binary32 :=
  ofMagnitude (z < 0) (BinaryFormat.single.round z.natAbs 1)

end Binary32

/-- A number of the 64-bit format, by sign and magnitude. -/
structure Binary64 where
  negative : Bool
  magnitude : Nat
  deriving DecidableEq, Repr

namespace Binary64

/-- The number nearest to the decimal `± digits * 10 ^ exponent`. -/
def ofScientific (negative : Bool) (digits : Nat) (exponent : Int) : Binary64 :=
  ⟨negative, BinaryFormat.double.roundScientific digits exponent⟩

def infinity (negative : Bool) : Binary64 := ⟨negative, BinaryFormat.double.infinity⟩

def nan : Binary64 := ⟨false, BinaryFormat.double.infinity + 1⟩

/-- The number of the 32-bit format nearest to a finite or infinite number. -/
def toBinary32 (x : Binary64) : Binary32 :=
  let magnitude :=
    if x.magnitude < BinaryFormat.double.infinity then
      BinaryFormat.single.round (BinaryFormat.double.units x.magnitude)
        (Nat.pow 2 BinaryFormat.double.places)
    else BinaryFormat.single.infinity
  .ofMagnitude x.negative magnitude

/-- The text of a number with a point in it: `1.5`, `-0.0`, `100000.0`; `inf`, `-inf` and `NaN` for
the rest. -/
def pointedText (x : Binary64) : String :=
  let sign := if x.negative then "-" else ""
  if BinaryFormat.double.infinity < x.magnitude then "NaN"
  else if x.magnitude = BinaryFormat.double.infinity then sign ++ "inf"
  else
    let decimal := BinaryFormat.double.shortest x.magnitude
    let point := if decimal.fractionDigits.isEmpty then ".0" else ""
    sign ++ String.ofList decimal.text ++ point

end Binary64

end Patchbay
