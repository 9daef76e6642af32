import Patchbay.Text.Reader
import Patchbay.Toml.Value

/-!
# TOML numbers, dates and times

A number is a whole number of 64 bits, in decimal or with a prefix for another base, or a
floating-point number of 64 bits.  Single underscores may part its digits.  Dates and times follow
the calendar; what they say beyond their text is not kept.
-/

namespace Patchbay.Toml

/-! ## Digits -/

/-- More digits behind a digit, without the underscores between them. -/
def moreDigits? (isDigit : Char → Bool) : Reader (List Char)
  | '_' :: c :: rest =>
    if isDigit c then (moreDigits? isDigit rest).map fun (digits, rest) => (c :: digits, rest)
    else none
  | ['_'] => none
  | c :: rest =>
    if isDigit c then (moreDigits? isDigit rest).map fun (digits, rest) => (c :: digits, rest)
    else some ([], c :: rest)
  | [] => some ([], [])

def digits? (isDigit : Char → Bool) : Reader (List Char)
  | c :: rest =>
    if isDigit c then (moreDigits? isDigit rest).map fun (digits, rest) => (c :: digits, rest)
    else none
  | [] => none

/-- The digits of a decimal number before its point; a leading zero stands alone. -/
def wholeDigits? : Reader (List Char)
  | '0' :: rest => some (['0'], rest)
  | s => digits? Char.isDigit s

/-- A sign, if there is one: whether it is a minus. -/
def sign : List Char → Bool × List Char
  | '-' :: rest => (true, rest)
  | '+' :: rest => (false, rest)
  | s => (false, s)

/-! ## Whole numbers -/

/-- A whole number that fits 64 bits. -/
def integer? (z : Int) : Option Value :=
  if -Int.pow 2 63 ≤ z ∧ z < Int.pow 2 63 then some (.integer z) else none

/-- A whole number in a base other than ten, behind the prefix that names the base. -/
def inBase? (base : Nat) (isDigit : Char → Bool) : Reader Value := fun s => do
  let (digits, rest) ← digits? isDigit s
  return (← integer? (numberIn base digits), rest)

/-! ## Floating-point numbers -/

/-- The fraction digits behind a point. -/
def fractionPart? : Reader (List Char)
  | '.' :: rest => digits? Char.isDigit rest
  | s => some ([], s)

def exponentPart? : Reader Int
  | c :: rest =>
    if c = 'e' ∨ c = 'E' then do
      let (negative, rest) := sign rest
      let (digits, rest) ← digits? Char.isDigit rest
      let value : Int := decimalNumber digits
      return (if negative then -value else value, rest)
    else some (0, c :: rest)
  | [] => some (0, [])

/-- A floating-point number.  A positive one that is too large is refused. -/
def float? (negative : Bool) (whole fraction : List Char) (exponent : Int) : Option Value :=
  let x := Binary64.ofScientific negative (decimalNumber (whole ++ fraction))
    (exponent - fraction.length)
  if x = Binary64.infinity false then none else some (.float x)

/-- Whether a decimal number goes on with a fraction or an exponent. -/
def isFloating : List Char → Bool
  | c :: _ => c = '.' || c = 'e' || c = 'E'
  | [] => false

/-- A decimal number behind its sign. -/
def decimal? (negative : Bool) : Reader Value := fun s => do
  let (whole, rest) ← wholeDigits? s
  if isFloating rest then
    let (fraction, rest) ← fractionPart? rest
    let (exponent, rest) ← exponentPart? rest
    return (← float? negative whole fraction exponent, rest)
  else
    let value : Int := decimalNumber whole
    return (← integer? (if negative then -value else value), rest)

def number? : Reader Value := fun s =>
  match s with
  | '0' :: 'x' :: rest => inBase? 16 (fun c => (hexValue? c).isSome) rest
  | '0' :: 'o' :: rest => inBase? 8 (fun c => '0' ≤ c && c ≤ '7') rest
  | '0' :: 'b' :: rest => inBase? 2 (fun c => c = '0' || c = '1') rest
  | _ =>
    match sign s with
    | (negative, 'i' :: 'n' :: 'f' :: rest) => some (.float (.infinity negative), rest)
    | (_, 'n' :: 'a' :: 'n' :: rest) => some (.float .nan, rest)
    | (negative, rest) => decimal? negative rest

/-! ## Dates and times -/

/-- The number in a fixed count of decimal digits. -/
def fixedNumber? (digits : List Char) : Option Nat :=
  if digits.all Char.isDigit then some (decimalNumber digits) else none

/-- How many days a month has. -/
def daysIn (year month : Nat) : Nat :=
  if month = 2 then
    if year % 4 = 0 ∧ (year % 100 ≠ 0 ∨ year % 400 = 0) then 29 else 28
  else if month = 4 ∨ month = 6 ∨ month = 9 ∨ month = 11 then 30
  else 31

def afterDate? : List Char → Option (List Char)
  | a :: b :: c :: d :: '-' :: e :: f :: '-' :: g :: h :: rest => do
    let year ← fixedNumber? [a, b, c, d]
    let month ← fixedNumber? [e, f]
    let day ← fixedNumber? [g, h]
    if 1 ≤ month ∧ month ≤ 12 ∧ 1 ≤ day ∧ day ≤ daysIn year month then some rest else none
  | _ => none

/-- What follows an hour and a minute. -/
def afterMinute? : List Char → Option (List Char)
  | a :: b :: ':' :: c :: d :: rest => do
    let hour ← fixedNumber? [a, b]
    let minute ← fixedNumber? [c, d]
    if hour ≤ 23 ∧ minute ≤ 59 then some rest else none
  | _ => none

/-- What follows the fraction of a second, if there is one. -/
def afterFraction : List Char → List Char
  | '.' :: c :: rest => if c.isDigit then rest.dropWhile Char.isDigit else '.' :: c :: rest
  | s => s

/-- What follows a time; a minute may have a leap second. -/
def afterTime? (s : List Char) : Option (List Char) := do
  match ← afterMinute? s with
  | ':' :: a :: b :: rest =>
    let second ← fixedNumber? [a, b]
    if second ≤ 60 then some (afterFraction rest) else none
  | _ => none

/-- What follows the offset of a time, if there is one. -/
def afterOffset : List Char → List Char
  | c :: rest =>
    if c = 'Z' ∨ c = 'z' then rest
    else if c = '+' ∨ c = '-' then (afterMinute? rest).getD (c :: rest)
    else c :: rest
  | [] => []

/-- What follows a date, a time, or a date and a time. -/
def afterDateTime? (s : List Char) : Option (List Char) :=
  match afterDate? s with
  | none => afterTime? s
  | some [] => some []
  | some (c :: rest) =>
    if c = 'T' ∨ c = 't' ∨ c = ' ' then
      match afterTime? rest with
      | some rest => some (afterOffset rest)
      | none => some (c :: rest)
    else some (c :: rest)

/-- A date, a time, or both. -/
def dateTime? : Reader Value := fun s => do
  let rest ← afterDateTime? s
  return (.dateTime (String.ofList (s.take (s.length - rest.length))), rest)

end Patchbay.Toml
