import Patchbay.Json.Basic
import Patchbay.Toml.Document

/-!
# Linker configuration

The linker is configured by five names: the two markers of a template, and the names that the host
script uses for the state arrays and for the two channels of the mix.  Each has a default, so an
empty document is a configuration.

* `Config`, with `Config.get` and `Config.set` over its fields.
* `Config.ofToml`: the configuration of a TOML document, with the first misfit if it is none.
* `Config.ofJson?`: the configuration of a JSON value.
-/

namespace Patchbay

/-- The names that the linker puts into a host script or looks for in it. -/
structure Config where
  /-- The marker that is replaced by the initial values. -/
  valuesMarker : String := "//!VALUES"
  /-- The marker that is replaced by the code. -/
  codeMarker : String := "//!CODE"
  /-- The array that holds one state array per voice. -/
  stateName : String := "state"
  mixLeft : String := "ll"
  mixRight : String := "rr"
  deriving DecidableEq, Repr, Inhabited

namespace Config

inductive Field where
  | valuesMarker
  | codeMarker
  | stateName
  | mixLeft
  | mixRight
  deriving DecidableEq, Repr

def Field.all : List Field := [.valuesMarker, .codeMarker, .stateName, .mixLeft, .mixRight]

/-- The key of a field in a document. -/
def Field.key : Field → String
  | .valuesMarker => "values_marker"
  | .codeMarker => "code_marker"
  | .stateName => "state_name"
  | .mixLeft => "mix_left"
  | .mixRight => "mix_right"

def Field.ofKey? (key : String) : Option Field := Field.all.find? (·.key = key)

def get (c : Config) : Field → String
  | .valuesMarker => c.valuesMarker
  | .codeMarker => c.codeMarker
  | .stateName => c.stateName
  | .mixLeft => c.mixLeft
  | .mixRight => c.mixRight

/-- The configuration with another name in a field. -/
def set (c : Config) (field : Field) (name : String) : Config :=
  match field with
  | .valuesMarker => { c with valuesMarker := name }
  | .codeMarker => { c with codeMarker := name }
  | .stateName => { c with stateName := name }
  | .mixLeft => { c with mixLeft := name }
  | .mixRight => { c with mixRight := name }

/-- Setting a field changes that field and no other. -/
theorem get_set (c : Config) (field other : Field) (name : String) :
    (c.set field name).get other = if field = other then name else c.get other := by
  cases field <;> cases other <;> rfl

/-- Every field is found under its key. -/
theorem Field.ofKey?_key (field : Field) : Field.ofKey? field.key = some field := by
  cases field <;> decide

/-! ## From TOML -/

/-- How a document fails to be a configuration. -/
inductive Misfit where
  /-- It has a key that is no field. -/
  | unknownField (key : String)
  /-- A field has a value that is no string. -/
  | notString (found : Toml.Value)
  deriving Repr

/-- The kind of a value, and for a simple one the value, in words. -/
def describe : Toml.Value → String
  | .string _ => "string"
  | .integer value => "integer `" ++ toString value ++ "`"
  | .float value => "floating point `" ++ value.pointedText ++ "`"
  | .boolean value => "boolean `" ++ (if value then "true" else "false") ++ "`"
  | .array _ | .tables _ => "sequence"
  | .table .. | .dateTime _ => "map"

/-- The keys of the fields, as a list in words. -/
def expectedKeys : String :=
  ", ".intercalate (Field.all.map fun field => "`" ++ field.key ++ "`")

def Misfit.message : Misfit → String
  | .unknownField key => "unknown field `" ++ key ++ "`, expected one of " ++ expectedKeys
  | .notString found => "invalid type: " ++ describe found ++ ", expected a string"

/-- Why a text is no configuration. -/
inductive DocumentError where
  | malformed
  | misfit (reason : Misfit)
  deriving Repr

/-- The configuration with one more key of a document taken in. -/
def takeField (c : Config) (entry : String × Toml.Value) : Except Misfit Config :=
  match Field.ofKey? entry.1 with
  | none => .error (.unknownField entry.1)
  | some field =>
    match entry.2 with
    | .string name => .ok (c.set field name)
    | found => .error (.notString found)

/-- **The configuration of a TOML text.**  The whole text has to be a document before its keys are
looked at, in their order; fields without a key keep their defaults. -/
def ofToml (text : String) : Except DocumentError Config :=
  match Toml.parse? text with
  | none => .error .malformed
  | some fields =>
    match fields.foldlM takeField {} with
    | .ok c => .ok c
    | .error reason => .error (.misfit reason)

/-! ## From JSON -/

/-- The configuration with a field taken from a JSON value. -/
def takeJson? (c : Config) (field : Field) (value : Json) : Option Config :=
  value.asString?.map (c.set field)

/-- The configuration of a JSON object with any of the fields, or of a list of the first names. -/
def ofJson? : Json → Option Config
  | .object fields =>
    fields.foldlM (fun c (key, value) => (Field.ofKey? key).bind (c.takeJson? · value)) {}
  | .array values =>
    if values.length ≤ Field.all.length then
      (Field.all.zip values).foldlM (fun c (field, value) => c.takeJson? field value) {}
    else none
  | _ => none

end Config

end Patchbay
