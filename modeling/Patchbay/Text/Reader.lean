/-!
# Reading from a list of characters

A reader takes the characters that are still to be read and gives back a value with the characters
behind it, or nothing.  This file holds the readers' type and what all of them say about digits and
character codes.
-/

namespace Patchbay

/-- What reads a value at the front of a text. -/
abbrev Reader (α : Type) := List Char → Option (α × List Char)

/-- The value of a hexadecimal digit. -/
def hexValue? (c : Char) : Option Nat :=
  if '0' ≤ c ∧ c ≤ '9' then some (c.toNat - '0'.toNat)
  else if 'a' ≤ c ∧ c ≤ 'f' then some (c.toNat - 'a'.toNat + 10)
  else if 'A' ≤ c ∧ c ≤ 'F' then some (c.toNat - 'A'.toNat + 10)
  else none

/-- The number that hexadecimal digits stand for. -/
def hexNumber? (digits : List Char) : Option Nat :=
  digits.foldlM (fun n c => (hexValue? c).map (16 * n + ·)) 0

/-- The number that digits below `base` stand for; a character that is no digit counts as zero. -/
def numberIn (base : Nat) (digits : List Char) : Nat :=
  digits.foldl (fun n c => base * n + (hexValue? c).getD 0) 0

/-- The number that decimal digits stand for. -/
def decimalNumber (digits : List Char) : Nat := numberIn 10 digits

/-- The character with a given code, unless the code is none. -/
def charOfCode? (code : Nat) : Option Char :=
  if code.isValidChar then some (Char.ofNat code) else none

end Patchbay
