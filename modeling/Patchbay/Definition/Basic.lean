import Patchbay.Number.Binary32

/-!
# Module definitions

A definition describes one kind of signal-processing module: how many channels it takes and gives,
its named parameters with their defaults, how many cells of its own it keeps from sample to sample,
and the script fragment that does its work once per sample.

* `Definition`: the description itself, and `Definition.sink`, the one every graph ends in.
* `Definition.Step`, `Definition.build`: definitions put together step by step.
* `Definition.equals`: numeric equality, under which a NaN default differs from itself.
-/

namespace Patchbay

/-- The name reserved for the module that a graph ends in. -/
def sinkName : String := "!out"

/-- The description of one kind of module. -/
structure Definition where
  /-- The name, possibly a menu path such as `Oscillator/Sawtooth`. -/
  name : String
  inChannels : UInt8
  outChannels : UInt8
  paramNames : List String := []
  /-- The defaults of the parameters; all of them are zero when this is absent. -/
  paramDefaults : Option (List Binary32) := none
  /-- Cells that the fragment keeps from one sample to the next. -/
  workspaceSize : UInt64 := 0
  /-- The script fragment that is run once per sample. -/
  code : String := ""
  deriving DecidableEq, Repr, Inhabited

namespace Definition

/-- The stereo sink: two input channels and no output. -/
def sink : Definition := { name := sinkName, inChannels := 2, outChannels := 0 }

/-- Whether a definition has the name reserved for the sink. -/
def isSink (d : Definition) : Bool := d.name = sinkName

def paramCount (d : Definition) : Nat := d.paramNames.length

/-- The place of a parameter among the names, the first one if the name is repeated. -/
def paramIndex? (d : Definition) (name : String) : Option Nat := d.paramNames.idxOf? name

/-- The default of the parameter at a place, zero where none is given. -/
def defaultValue (d : Definition) (index : Nat) : Binary32 :=
  (d.paramDefaults.getD [])[index]?.getD .zero

/-- The last segment of a menu path: `Sawtooth` for `Oscillator/Sawtooth`. -/
def lastSegment (path : List Char) : List Char :=
  (path.reverse.takeWhile (· ≠ '/')).reverse

/-- The name shown for modules of this kind. -/
def displayName (d : Definition) : String := String.ofList (lastSegment d.name.toList)

/-- Numeric equality of two lists of defaults. -/
def equalDefaults : List Binary32 → List Binary32 → Bool
  | [], [] => true
  | x :: xs, y :: ys => x.equals y && equalDefaults xs ys
  | _, _ => false

/-- Equality of definitions, the defaults being compared as numbers.  Absent defaults differ from an
empty list of defaults. -/
def equals (d e : Definition) : Bool :=
  d.name = e.name && d.inChannels = e.inChannels && d.outChannels = e.outChannels &&
  d.paramNames = e.paramNames && d.workspaceSize = e.workspaceSize && d.code = e.code &&
  match d.paramDefaults, e.paramDefaults with
  | none, none => true
  | some xs, some ys => equalDefaults xs ys
  | _, _ => false

/-! ## Building step by step -/

/-- Appends a parameter with its default.  Parameters that were named before the first default was
given get a zero default with it. -/
def withParam (d : Definition) (name : String) (value : Binary32) : Definition :=
  let earlier := d.paramDefaults.getD (List.replicate d.paramCount .zero)
  { d with paramDefaults := some (earlier ++ [value]), paramNames := d.paramNames ++ [name] }

/-- Appends a parameter name and leaves the defaults as they are. -/
def withName (d : Definition) (name : String) : Definition :=
  { d with paramNames := d.paramNames ++ [name] }

/-- Sets the number of workspace cells. -/
def withWorkspace (d : Definition) (size : UInt64) : Definition := { d with workspaceSize := size }

def withCode (d : Definition) (code : String) : Definition := { d with code := code }

/-- One step in putting a definition together. -/
inductive Step where
  | param (name : String) (value : Binary32)
  | name (name : String)
  | workspace (size : UInt64)
  | code (text : String)
  deriving DecidableEq, Repr

def step (d : Definition) : Step → Definition
  | .param name value => d.withParam name value
  | .name name => d.withName name
  | .workspace size => d.withWorkspace size
  | .code text => d.withCode text

/-- The definition that a list of steps leads to. -/
def build (name : String) (inChannels outChannels : UInt8) (steps : List Step) : Definition :=
  steps.foldl step { name, inChannels, outChannels }

end Definition

end Patchbay
