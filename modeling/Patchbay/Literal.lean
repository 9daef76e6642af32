import Patchbay.Number.Binary32

/-!
# Script literals

The host script reads initial cell values as number literals.  A finite number is written with the
fewest digits that read back, always positionally, and a fraction between zero and one drops the
zero before its point: `.5`, `-0.5`, `440`.  The other numbers go by the script's names for them.
-/

namespace Patchbay

/-- A positional text without the zero in front of a leading point. -/
def dropLeadingZero : List Char → List Char
  | '0' :: '.' :: fraction => '.' :: fraction
  | text => text

/-- The script literal of a number. -/
def Binary32.literal (x : Binary32) : String :=
  if x.isNaN then "NaN"
  else if x.isInfinite then (if x.negative then "-Infinity" else "Infinity")
  else
    let text := (BinaryFormat.single.shortest x.magnitude).text
    String.ofList (if x.negative then '-' :: text else dropLeadingZero text)

end Patchbay
