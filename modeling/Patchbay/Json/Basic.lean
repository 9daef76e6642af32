import Patchbay.Number.Binary32

/-!
# JSON values

`Json` is the data that definitions and configurations are exchanged in.  An object keeps its fields
in the order in which they were written, and a number keeps its form, because the two forms are read
differently: an integer is rounded to 32 bits in one step, a decimal by way of 64 bits.
-/

namespace Patchbay

/-- A number as it is written. -/
inductive JsonNumber where
  | integer (value : Int)
  /-- The number `± digits * 10 ^ exponent`, written with a fraction or an exponent. -/
  | decimal (negative : Bool) (digits : Nat) (exponent : Int)
  deriving DecidableEq, Repr

/-- The 32-bit value of a written number. -/
def JsonNumber.toBinary32 : JsonNumber → Binary32
  | .integer value => .ofInt value
  | .decimal negative digits exponent => (Binary64.ofScientific negative digits exponent).toBinary32

/-- A finite 32-bit number, written out in full. -/
def JsonNumber.ofBinary32 (x : Binary32) : JsonNumber :=
  .decimal x.negative
    (BinaryFormat.single.units x.magnitude * Nat.pow 5 BinaryFormat.single.places)
    (-(BinaryFormat.single.places : Int))

inductive Json where
  /-- The value `null`. -/
  | null
  | bool (value : Bool)
  /-- A number, in the form it was written in. -/
  | number (value : JsonNumber)
  | string (value : String)
  | array (items : List Json)
  /-- Named values, in the order in which they were written. -/
  | object (fields : List (String × Json))
  deriving Repr, Inhabited

namespace Json

/-- A whole number as a value. -/
def ofNat (n : Nat) : Json := .number (.integer n)

/-- A 32-bit number as a value; what is no finite number has no numeral and becomes `null`. -/
def ofBinary32 (x : Binary32) : Json :=
  if x.isFinite then .number (.ofBinary32 x) else .null

/-- The field of an object, if there is one. -/
def field? (name : String) : Json → Option Json
  | .object fields => fields.lookup name
  | _ => none

/-- The text, of a string only. -/
def asString? : Json → Option String
  | .string value => some value
  | _ => none

/-- The truth value, of a truth value only. -/
def asBool? : Json → Option Bool
  | .bool value => some value
  | _ => none

/-- The value of a number written as a non-negative integer below `limit`. -/
def asNat? (limit : Nat) : Json → Option Nat
  | .number (.integer value) => if 0 ≤ value ∧ value < limit then some value.toNat else none
  | _ => none

/-- The 32-bit value, of a number only. -/
def asBinary32? : Json → Option Binary32
  | .number value => some value.toBinary32
  | _ => none

/-- The items of a list, each read by `item`. -/
def asList? {α : Type} (item : Json → Option α) : Json → Option (List α)
  | .array items => items.mapM item
  | _ => none

end Json

end Patchbay
