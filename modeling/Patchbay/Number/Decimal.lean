/-!
# Finite decimals

`Decimal` is a non-negative number with finitely many decimal places, written positionally:
`units / 10 ^ places`.  `Decimal.text` writes it with every digit it has and none to spare.

* `Decimal.wholeDigits`, `Decimal.fractionDigits`: the digits before and after the point.
* `Decimal.text`: both, joined by a point when there is a fraction.
-/

namespace Patchbay

/-- The non-negative number `units / 10 ^ places`. -/
structure Decimal where
  /-- The number counted in units of its last place. -/
  units : Nat
  places : Nat
  deriving DecidableEq, Repr

/-- The decimal digits of a natural number, most significant first. -/
def decimalDigits (n : Nat) : List Char := Nat.toDigits 10 n

/-- A list of characters without the zeros at its end. -/
def dropTrailingZeros (digits : List Char) : List Char :=
  (digits.reverse.dropWhile (· = '0')).reverse

namespace Decimal

/-- The digits before the point; a single zero for a number below one. -/
def wholeDigits (d : Decimal) : List Char := decimalDigits (d.units / Nat.pow 10 d.places)

/-- The digits after the point, up to the last one that is not zero. -/
def fractionDigits (d : Decimal) : List Char :=
  let digits := decimalDigits (d.units % Nat.pow 10 d.places)
  dropTrailingZeros (List.replicate (d.places - digits.length) '0' ++ digits)

/-- The positional text of a decimal: `2.25`, `0.5`, `1000`. -/
def text (d : Decimal) : List Char :=
  match d.fractionDigits with
  | [] => d.wholeDigits
  | fraction => d.wholeDigits ++ '.' :: fraction

end Decimal

end Patchbay
