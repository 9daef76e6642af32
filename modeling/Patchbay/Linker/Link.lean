import Patchbay.Event
import Patchbay.Linker.Error
import Patchbay.Linker.Template

/-!
# Linking voices into a host script

A voice is a compiled patch with a state array of its own.  The linker joins the texts of all voices
and puts them into a template: the initial values become the elements of one array, and the code of
each voice is wrapped so that it runs on its own state array and adds its output to the mix.

* `combine`: the texts of all voices as one.
* `substitute`: the script of a template and two texts.
* `link`, `linkPatches`, `linkGraphs`: both together, from texts, patches or graphs.
-/

namespace Patchbay

/-- The two texts of a voice, or of all voices together. -/
structure Voice where
  values : String
  code : String
  deriving DecidableEq, Repr

def Patch.voice (p : Patch) : Voice := ⟨p.values, p.code⟩

namespace Config

/-- The code of the voice at a place, wrapped: it selects the state array of the voice and sets the
cursor to its start, runs the voice, and adds the registers to the mix. -/
def wrap (config : Config) (index : Nat) (code : String) : String :=
  "v=" ++ config.stateName ++ "[" ++ toString index ++ "];i=0;\n" ++ endLine code ++
    config.mixLeft ++ "+=l;" ++ config.mixRight ++ "+=r;\n"

/-- **The texts of all voices as one.** -/
def combine (config : Config) (voices : List Voice) : Voice where
  values := ",".intercalate (voices.map (·.values))
  code := String.join (voices.mapIdx fun index voice => config.wrap index voice.code)

/-- The span of a marker in a template, which has to contain it. -/
def findMarker (template marker : String) : Except LinkError Span :=
  match locate? template.toList marker.toList with
  | some span => .ok span
  | none => .error (.missingMarker marker)

/-- **The script of a template**, its markers replaced by the texts.  Each marker is replaced where
it occurs first; the two places must not overlap. -/
def substitute (config : Config) (template : String) (texts : Voice) :
    Except LinkError String := do
  let values ← findMarker template config.valuesMarker
  let code ← findMarker template config.codeMarker
  require (values.overlaps code = false) (.markerOverlap config.valuesMarker config.codeMarker)
  let script :=
    if values.start < code.start then
      splice template.toList values texts.values.toList code texts.code.toList
    else splice template.toList code texts.code.toList values texts.values.toList
  return String.ofList script

/-- The script of a template and voices. -/
def link (config : Config) (template : String) (voices : List Voice) : Except LinkError String :=
  config.substitute template (config.combine voices)

/-- The script of a template and patches. -/
def linkPatches (config : Config) (template : String) (patches : List Patch) :
    Except LinkError String :=
  config.link template (patches.map Patch.voice)

/-- The patches of graphs, up to the first that does not compile. -/
def compileAll (graphs : List Graph) : Except GraphError (List Patch) := graphs.mapM Graph.compile

/-- The script of a template and graphs.  The first graph that does not compile decides, whatever
the template is. -/
def linkGraphs (config : Config) (template : String) (graphs : List Graph) :
    Except LinkError String :=
  match compileAll graphs with
  | .ok patches => config.linkPatches template patches
  | .error error => .error (.graph error)

/-! ## The events of linking -/

def linkEvents (config : Config) (voices : List Voice) : List Event :=
  let texts := config.combine voices
  [.substituting texts.values.utf8ByteSize texts.code.utf8ByteSize]

def linkPatchesEvents (config : Config) (patches : List Patch) : List Event :=
  .linking patches.length :: config.linkEvents (patches.map Patch.voice)

/-- The events of compiling graphs, up to the first that does not compile. -/
def compileAllEvents : List Graph → List Event
  | [] => []
  | g :: graphs =>
    g.compileEvents ++
      match g.compile with
      | .ok _ => compileAllEvents graphs
      | .error _ => []

def linkGraphsEvents (config : Config) (graphs : List Graph) : List Event :=
  compileAllEvents graphs ++
    match compileAll graphs with
    | .ok patches => config.linkPatchesEvents patches
    | .error _ => []

/-- The events of reading a configuration file. -/
def loadEvents (path : String) (content : Except ReadFailure ByteArray) : List Event :=
  match Config.load path content with
  | .ok _ => [.configLoaded path]
  | .error _ => []

end Config

end Patchbay
