import Patchbay.Number.Binary32

/-!
# TOML values and tables

A TOML document is a table of named values.  A table remembers how it came about, since that decides
what may still be added to it: a table in braces is complete, one under a header of its own takes no
more keys by dotted names, and one that was only mentioned on the way to another may still get its
header.

* `Toml.Value`, `Toml.Fields`: the values, and tables as fields in the order of the document.
* `Toml.descend`: goes down a path of keys, making tables where there are none.
* `Toml.assign`: gives a key its value.
-/

namespace Patchbay.Toml

inductive Origin where
  | braces
  | header
  /-- Mentioned in the header of a table inside it. -/
  | implied
  | dotted
  deriving DecidableEq, Repr

inductive Value where
  | string (value : String)
  | integer (value : Int)
  | float (value : Binary64)
  | boolean (value : Bool)
  /-- A date, a time, or both, as it is written. -/
  | dateTime (text : String)
  | array (items : List Value)
  /-- The tables under the headers of one name in double brackets. -/
  | tables (elements : List (List (String × Value)))
  | table (origin : Origin) (fields : List (String × Value))
  deriving Repr, Inhabited

/-- The named values of a table, in the order of the document. -/
abbrev Fields := List (String × Value)

/-- The fields with another value under a key. -/
def replaceField (key : String) (value : Value) (fields : Fields) : Fields :=
  fields.map fun e => if e.1 = key then (key, value) else e

def eraseField (key : String) (fields : Fields) : Fields := fields.filter (·.1 ≠ key)

/-- Goes down a path of keys and acts on the fields of the table it leads to.  Tables that are
missing are made, by a dotted key as dotted ones and by a header as implied ones.  The path leads
through the last of several tables of one name, and never into a table in braces; a dotted key does
not lead into a table with a header. -/
def descend {α : Type} (byDots : Bool) (act : Origin → Fields → Option (Fields × α)) :
    List String → Origin → Fields → Option (Fields × α)
  | [], origin, fields => act origin fields
  | key :: path, _, fields =>
    match fields.lookup key with
    | none => do
      let made : Origin := if byDots then .dotted else .implied
      let (inner, a) ← descend byDots act path made []
      return (fields ++ [(key, .table made inner)], a)
    | some (.table origin inner) =>
      if origin = .braces ∨ (byDots ∧ origin = .header) then none
      else do
        let (inner, a) ← descend byDots act path origin inner
        return (replaceField key (.table origin inner) fields, a)
    | some (.tables elements) =>
      match elements.getLast? with
      | none => none
      | some last => do
        let (inner, a) ← descend byDots act path .header last
        return (replaceField key (.tables (elements.dropLast ++ [inner])) fields, a)
    | some _ => none

/-- Gives the key at the end of a path its value.  The key must be new, and tables that dotted keys
made take their keys from dotted keys only. -/
def assign (path : List String) (key : String) (value : Value) (fields : Fields) : Option Fields :=
  let act (origin : Origin) (fields : Fields) : Option (Fields × Unit) :=
    if (origin = .dotted ↔ path = []) then none
    else if (fields.lookup key).isSome then none
    else some (fields ++ [(key, value)], ())
  (descend true act path .header fields).map (·.1)

end Patchbay.Toml
