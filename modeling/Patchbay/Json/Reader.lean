import Patchbay.Json.Basic
import Patchbay.Text.Reader

/-!
# Reading JSON text

Values nest at most `Json.depthLimit` deep, which is also what the recursion runs on; inside a
string, a list or an object it runs on a bound of the characters left.

* `Json.parse?`: the value of a whole text.
-/

namespace Patchbay.Json

/-- Characters without the blanks in front. -/
def skipBlanks : List Char → List Char :=
  List.dropWhile fun c => c = ' ' || c = '\t' || c = '\n' || c = '\r'

/-! ## Strings -/

/-- The character that a one-letter escape stands for. -/
def shortEscape? : Char → Option Char
  | '"' => some '"'
  | '\\' => some '\\'
  | '/' => some '/'
  | 'b' => some '\x08'
  | 'f' => some '\x0c'
  | 'n' => some '\n'
  | 'r' => some '\r'
  | 't' => some '\t'
  | _ => none

/-- The character behind `\u`, and what follows it.  A character outside the basic plane is written
as two escapes. -/
def unicodeEscape? : Reader Char
  | a :: b :: c :: d :: rest => do
    let unit ← hexNumber? [a, b, c, d]
    if 0xD800 ≤ unit ∧ unit < 0xDC00 then
      match rest with
      | '\\' :: 'u' :: e :: f :: g :: h :: rest =>
        let low ← hexNumber? [e, f, g, h]
        if 0xDC00 ≤ low ∧ low < 0xE000 then
          return (← charOfCode? (0x10000 + (unit - 0xD800) * 0x400 + (low - 0xDC00)), rest)
        else none
      | _ => none
    else return (← charOfCode? unit, rest)
  | _ => none

/-- The rest of a string behind its opening quote, given the characters read so far in reverse.  The
first argument bounds the number of characters still to be read. -/
def stringRest : Nat → List Char → Reader String
  | 0, _, _ => none
  | fuel + 1, read, s =>
    match s with
    | '"' :: rest => some (String.ofList read.reverse, rest)
    | '\\' :: 'u' :: rest => do
      let (c, rest) ← unicodeEscape? rest
      stringRest fuel (c :: read) rest
    | '\\' :: escape :: rest => do
      let c ← shortEscape? escape
      stringRest fuel (c :: read) rest
    | c :: rest => if c.toNat < 0x20 then none else stringRest fuel (c :: read) rest
    | [] => none

/-! ## Numbers -/

/-- The digits at the front, and what follows them. -/
def spanDigits (s : List Char) : List Char × List Char := s.span Char.isDigit

/-- The fraction digits behind a point, if there is one; a point needs a digit after it. -/
def fraction? : Reader (Option (List Char))
  | '.' :: rest =>
    match spanDigits rest with
    | ([], _) => none
    | (digits, rest) => some (some digits, rest)
  | s => some (none, s)

/-- The value of the exponent, if there is one; it needs a digit. -/
def exponent? : Reader (Option Int)
  | c :: rest =>
    if c = 'e' ∨ c = 'E' then
      let (negative, rest) :=
        match rest with
        | '-' :: rest => (true, rest)
        | '+' :: rest => (false, rest)
        | _ => (false, rest)
      match spanDigits rest with
      | ([], _) => none
      | (digits, rest) =>
        let value : Int := decimalNumber digits
        some (some (if negative then -value else value), rest)
    else some (none, c :: rest)
  | [] => some (none, [])

/-- A number from its parts.  It is an integer if it is written as one and fits 64 bits, with or
without sign; a negative zero is a decimal, which keeps its sign. -/
def ofParts (negative : Bool) (whole : List Char) (fraction : Option (List Char))
    (exponent : Option Int) : JsonNumber :=
  match fraction, exponent with
  | none, none =>
    let value := decimalNumber whole
    if negative then
      if value = 0 ∨ Nat.pow 2 63 < value then .decimal true value 0 else .integer (-(value : Int))
    else
      if Nat.pow 2 64 ≤ value then .decimal false value 0 else .integer value
  | fraction, exponent =>
    let fraction := fraction.getD []
    .decimal negative (decimalNumber (whole ++ fraction)) (exponent.getD 0 - fraction.length)

/-- A number at the front.  A leading zero stands alone. -/
def number? : Reader JsonNumber := fun s => do
  let (negative, s) :=
    match s with
    | '-' :: rest => (true, rest)
    | _ => (false, s)
  let (whole, rest) := spanDigits s
  if whole = [] ∨ (whole.head? = some '0' ∧ 1 < whole.length) then none
  let (fraction, rest) ← fraction? rest
  let (exponent, rest) ← exponent? rest
  return (ofParts negative whole fraction exponent, rest)

/-! ## Values -/

/-- Items parted by commas up to a closing character. -/
def itemsUntil {α : Type} (close : Char) (item : Reader α) : Nat → Reader (List α)
  | 0, _ => none
  | fuel + 1, s => do
    let (a, rest) ← item s
    match skipBlanks rest with
    | ',' :: rest =>
      let (as, rest) ← itemsUntil close item fuel rest
      return (a :: as, rest)
    | c :: rest => if c = close then some ([a], rest) else none
    | [] => none

/-- A field: a name, a colon and a value. -/
def member? (value : Reader Json) : Reader (String × Json) := fun s =>
  match skipBlanks s with
  | '"' :: rest => do
    let (name, rest) ← stringRest (rest.length + 1) [] rest
    match skipBlanks rest with
    | ':' :: rest =>
      let (v, rest) ← value rest
      return ((name, v), rest)
    | _ => none
  | _ => none

/-- Fields with each name once: a later value replaces an earlier one. -/
def mergeFields (fields : List (String × Json)) : List (String × Json) :=
  fields.foldl (fun merged (name, v) =>
    if merged.any (·.1 = name) then merged.map fun e => if e.1 = name then (name, v) else e
    else merged ++ [(name, v)]) []

def depthLimit : Nat := 128

/-- A value at the front, nested at most as deep as the first argument says. -/
def value? : Nat → Reader Json
  | 0, _ => none
  | depth + 1, s =>
    match skipBlanks s with
    | 'n' :: 'u' :: 'l' :: 'l' :: rest => some (.null, rest)
    | 't' :: 'r' :: 'u' :: 'e' :: rest => some (.bool true, rest)
    | 'f' :: 'a' :: 'l' :: 's' :: 'e' :: rest => some (.bool false, rest)
    | '"' :: rest => do
      let (text, rest) ← stringRest (rest.length + 1) [] rest
      return (.string text, rest)
    | '[' :: rest =>
      match skipBlanks rest with
      | ']' :: rest => some (.array [], rest)
      | _ => do
        let (items, rest) ← itemsUntil ']' (value? depth) (rest.length + 1) rest
        return (.array items, rest)
    | '{' :: rest =>
      match skipBlanks rest with
      | '}' :: rest => some (.object [], rest)
      | _ => do
        let (fields, rest) ← itemsUntil '}' (member? (value? depth)) (rest.length + 1) rest
        return (.object (mergeFields fields), rest)
    | s => do
      let (n, rest) ← number? s
      return (.number n, rest)

/-- The value of a whole text, or nothing if the text is not JSON. -/
def parse? (text : String) : Option Json :=
  match value? depthLimit text.toList with
  | some (v, rest) => if skipBlanks rest = [] then some v else none
  | none => none

end Patchbay.Json
