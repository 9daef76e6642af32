import Patchbay.Patch

/-!
# Events

What the library does can be followed through the events it reports.  Events are data: for every
operation there is a function that lists the events it reports, in their order.

* `Event`, with its `level`, `message` and `fields`.
* `Catalog.registerEvents`, `Graph.compileEvents`: the events of operations.  An edit reports its
  events itself (`Guarded.apply`).
-/

namespace Patchbay

inductive Level where
  | debug
  | trace
  deriving DecidableEq, Repr

def Level.text : Level → String
  | .debug => "DEBUG"
  | .trace => "TRACE"

/-- A further field of an event. -/
inductive EventField where
  | count (value : Nat)
  | text (value : String)
  deriving DecidableEq, Repr

inductive Event where
  | registered (definition : Definition)
  | added (m : Module)
  /-- A module was removed, and this many slots were freed. -/
  | removed (id : ModuleId) (freed : Nat)
  | connected (source target : ModuleId)
  | paramConnected (source target : ModuleId) (param : String)
  | disconnected (target : ModuleId)
  | paramDisconnected (target : ModuleId) (param : String)
  /-- The walk ran into a module on its path. -/
  | cycleFound (id : ModuleId) (name : String)
  /-- The module at a place of the order was given its range. -/
  | laidOut (position : Nat) (node : Node)
  | compiled (name : String) (modules buffered cells : Nat)
  | linking (voices : Nat)
  /-- Texts of these lengths, in bytes, are put into a template. -/
  | substituting (valuesLength codeLength : Nat)
  | configLoaded (path : String)
  deriving DecidableEq, Repr

namespace Event

def level : Event → Level
  | .laidOut .. => .trace
  | _ => .debug

def message : Event → String
  | .registered _ => "catalog_register"
  | .added m => "graph_add: " ++ m.text ++ " as " ++ m.id.text
  | .removed id freed => "graph_remove: " ++ id.text ++ " (" ++ toString freed ++ " slots cleared)"
  | .connected source target => "graph_connect: " ++ source.text ++ " → " ++ target.text
  | .paramConnected source target param =>
    "graph_connect: " ++ source.text ++ " → " ++ target.text ++ "." ++ param
  | .disconnected target => "graph_disconnect: " ++ target.text
  | .paramDisconnected target param => "graph_disconnect: " ++ target.text ++ "." ++ param
  | .cycleFound id name => "graph_schedule: cycle through " ++ id.text ++ " (" ++ name ++ ")"
  | .laidOut position node =>
    "  layout[" ++ toString position ++ "]: " ++ node.owner.text ++ " at " ++ toString node.start ++
      ".." ++ toString node.stop ++ " (buffered=" ++
      (if node.buffered then "true" else "false") ++ ")"
  | .compiled name modules buffered cells =>
    "graph_compile: '" ++ name ++ "' " ++ toString modules ++ " modules scheduled, " ++
      toString buffered ++ " buffered, " ++ toString cells ++ " state cells"
  | .linking voices => "link: " ++ toString voices ++ " voices"
  | .substituting _ _ => "link: substituting template markers"
  | .configLoaded _ => "linker config loaded"

/-- The further fields of the event. -/
def fields : Event → List (String × EventField)
  | .registered d =>
    [("name", .text d.name), ("params", .count d.paramCount),
      ("workspace", .count d.workspaceSize.toNat)]
  | .substituting valuesLength codeLength =>
    [("values_len", .count valuesLength), ("code_len", .count codeLength)]
  | .configLoaded path => [("path", .text path)]
  | _ => []

end Event

/-! ## The events of operations -/

def Catalog.registerEvents (definitions : List Definition) : List Event :=
  (Catalog.accepted definitions).map .registered

/-- The events of a walk that fails: a cycle is reported where it is found. -/
def WalkFault.events : WalkFault → List Event
  | .cycle id name => [.cycleFound id name]
  | _ => []

/-- The events of a compilation that succeeds: each range, then the whole patch. -/
def Patch.events (name : String) (p : Patch) : List Event :=
  p.layout.nodes.mapIdx .laidOut ++
    [.compiled name p.schedule.size p.layout.bufferedCount p.stateSize]

/-- The events of compiling a graph. -/
def Graph.compileEvents (g : Graph) : List Event :=
  match g.scheduled with
  | .ok modules => (Patch.ofModules modules).events g.name
  | .error fault => fault.events

end Patchbay
