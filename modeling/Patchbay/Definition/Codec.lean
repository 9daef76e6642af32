import Patchbay.Definition.Basic
import Patchbay.Json.Basic

/-!
# Definitions as JSON

A definition is written as an object of its seven fields, `paramDefaults` being left out when there
are none.  It is read from such an object, in which the last four fields may be missing and unknown
ones are ignored, or from the list of the field values, of which the last four may be cut off.

* `Definition.toJson`: the object.
* `Definition.ofJson?`: the definition, from either form.
-/

namespace Patchbay.Definition

/-- The names of the fields, in the order of the list form. -/
def fieldNames : List String :=
  ["name", "inChannels", "outChannels", "paramNames", "paramDefaults", "workspaceSize", "code"]

/-- The object of a definition, its defaults being written by `writeDefault`. -/
def toJsonWith (writeDefault : Binary32 → Json) (d : Definition) : Json :=
  .object <|
    [("name", .string d.name),
      ("inChannels", .ofNat d.inChannels.toNat),
      ("outChannels", .ofNat d.outChannels.toNat),
      ("paramNames", .array (d.paramNames.map .string))] ++
    (match d.paramDefaults with
      | some defaults => [("paramDefaults", .array (defaults.map writeDefault))]
      | none => []) ++
    [("workspaceSize", .ofNat d.workspaceSize.toNat),
      ("code", .string d.code)]

def toJson (d : Definition) : Json := d.toJsonWith Json.ofBinary32

/-- The fields of a definition as far as they are given, each still a JSON value. -/
structure Fields where
  name : Option Json
  inChannels : Option Json
  outChannels : Option Json
  paramNames : Option Json
  paramDefaults : Option Json
  workspaceSize : Option Json
  code : Option Json

/-- A field that may be missing: `fallback` if it is, and otherwise what it reads as. -/
def optional? {α : Type} (fallback : α) (read : Json → Option α) : Option Json → Option α
  | none => some fallback
  | some value => read value

def channels? (value : Json) : Option UInt8 := (value.asNat? UInt8.size).map UInt8.ofNat

/-- A list of defaults, or `null` for none. -/
def defaults? : Json → Option (Option (List Binary32))
  | .null => some none
  | value => (value.asList? Json.asBinary32?).map some

def size? (value : Json) : Option UInt64 := (value.asNat? UInt64.size).map UInt64.ofNat

/-- The definition that the given fields describe.  The first three are required. -/
def ofFields? (fields : Fields) : Option Definition := do
  let name ← fields.name.bind Json.asString?
  let inChannels ← fields.inChannels.bind channels?
  let outChannels ← fields.outChannels.bind channels?
  let paramNames ← optional? [] (Json.asList? Json.asString?) fields.paramNames
  let paramDefaults ← optional? none defaults? fields.paramDefaults
  let workspaceSize ← optional? 0 size? fields.workspaceSize
  let code ← optional? "" Json.asString? fields.code
  return { name, inChannels, outChannels, paramNames, paramDefaults, workspaceSize, code }

/-- The definition that a JSON value describes, or nothing if it describes none.  Whether it is a
usable one is not asked here. -/
def ofJson? : Json → Option Definition
  | .object fields =>
    ofFields? {
      name := fields.lookup "name"
      inChannels := fields.lookup "inChannels"
      outChannels := fields.lookup "outChannels"
      paramNames := fields.lookup "paramNames"
      paramDefaults := fields.lookup "paramDefaults"
      workspaceSize := fields.lookup "workspaceSize"
      code := fields.lookup "code" }
  | .array values =>
    if values.length ≤ fieldNames.length then
      ofFields? {
        name := values[0]?
        inChannels := values[1]?
        outChannels := values[2]?
        paramNames := values[3]?
        paramDefaults := values[4]?
        workspaceSize := values[5]?
        code := values[6]? }
    else none
  | _ => none

end Patchbay.Definition
