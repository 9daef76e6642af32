import Patchbay.Call
import Patchbay.Event
import Patchbay.Graph.Edit
import Patchbay.Guarded.Basic

/-!
# Edits as they run

An edit is a call on a graph: it checks its conditions one after the other, reaches for what it
changes and writes it, and reports what it has done.  Every access by place is guarded.

* `Guarded.apply`: the edits as calls, each with what it reports.
* `Guarded.paramBinding`: the query that reads by place.
* `Graph.next`, `Graph.applyAll`, `Graph.editEvents`: what edits leave behind and report.
-/

namespace Patchbay

namespace Guarded

/-- A call on a graph. -/
abbrev GraphCall (α : Type) : Type := Call Graph Failure α

/-- An edit: a call that reports an event or nothing. -/
abbrev EditCall : Type := GraphCall (Option Event)

/-- A step that looks at something and may refuse the call. -/
def ask {α : Type} (x : Except GraphError α) : GraphCall α := Call.check (plain x)

/-! ## Steps of edits -/

/-- Another value for the parameter at a place. -/
def setValue (m : Module) (index : Nat) (value : Binary32) : Except Failure Module := do
  let _ ← reach m.params index
  return m.setValue index value

/-- The parameter at a place bound or freed. -/
def setBinding (m : Module) (index : Nat) (producer : Option ModuleId) :
    Except Failure Module := do
  let _ ← reach m.params index
  return m.setBinding index producer

/-- Changes a module, which is looked up once more. -/
def modify (id : ModuleId) (change : Module → Except Failure Module) : GraphCall Unit := do
  let g ← get
  let m ← ask (g.get id)
  let changed ← Call.check (change m)
  set (g.modifyModule id fun _ => changed)

/-- The places of an arena with every slot freed that is bound to `target`, one module after the
other, and the number of these slots. -/
def clearAll (target : ModuleId) : List (Option Module) → List (Option Module) × Nat
  | [] => ([], 0)
  | none :: places =>
    let (rest, freed) := clearAll target places
    (none :: rest, freed)
  | some m :: places =>
    let (cleared, own) := m.clear target
    let (rest, freed) := clearAll target places
    (some cleared :: rest, own + freed)

/-! ## Modules, names and values -/

def add (definition : String) : EditCall := do
  let g ← get
  let d ← ask (g.catalog.lookup definition)
  let m := Module.instantiate g.nextId d
  set { g with arena := g.arena.push (some m) }
  return some (.added m)

def remove (id : ModuleId) : EditCall := do
  let g ← get
  let _ ← ask (g.get id)
  ask (require (id ≠ .sink) .sinkRemoval)
  let (places, freed) := clearAll id g.arena.toList
  set { g with arena := places.toArray }
  let arena ← Call.check (store places.toArray id.index none)
  set { g with arena }
  return some (.removed id freed)

def rename (id : ModuleId) (name : String) : EditCall := do
  modify id fun m => .ok (m.setName name)
  return none

def setName (name : String) : EditCall := do
  let g ← get
  set (g.setName name)
  return none

def setParam (id : ModuleId) (param : String) (value : Binary32) : EditCall := do
  let g ← get
  let index ← ask (g.resolveParam id param)
  modify id (setValue · index value)
  return none

/-! ## Slots -/

def connect (source target : ModuleId) : EditCall := do
  let g ← get
  let (sender, receiver) ← ask (g.endpoints source target)
  ask (require (receiver.inChannels ≠ 0) (.noInput receiver.name))
  ask (require (receiver.inChannels = sender.outChannels)
    (.channelMismatch receiver.name receiver.inChannels sender.outChannels))
  ask (require (receiver.mainInput = none) (.slotOccupied receiver.name .input))
  modify target fun m => .ok (m.setMainInput (some source))
  return some (.connected source target)

def connectParam (source target : ModuleId) (param : String) : EditCall := do
  let g ← get
  let (sender, receiver) ← ask (g.endpoints source target)
  ask (require (sender.outChannels = 1) (.notMono sender.name))
  match receiver.paramIndex? param with
  | none => ask (.error (.noSuchParam receiver.name param))
  | some index =>
    let slot ← Call.check (reach receiver.params index)
    ask (require (slot.binding = none) (.slotOccupied receiver.name (.param param)))
    modify target (setBinding · index (some source))
    return some (.paramConnected source target param)

def disconnect (target : ModuleId) : EditCall := do
  let g ← get
  let receiver ← ask (g.get target)
  ask (require (receiver.inChannels ≠ 0) (.noInput receiver.name))
  modify target fun m => .ok (m.setMainInput none)
  return some (.disconnected target)

def disconnectParam (target : ModuleId) (param : String) : EditCall := do
  let g ← get
  let index ← ask (g.resolveParam target param)
  modify target (setBinding · index none)
  return some (.paramDisconnected target param)

/-! ## All edits -/

/-- **An edit as it runs**, with what it reports: changes of names and values report nothing. -/
def apply : Graph.Edit → EditCall
  | .add definition => add definition
  | .remove id => remove id
  | .rename id name => rename id name
  | .setName name => setName name
  | .setParam id param value => setParam id param value
  | .connect source target => connect source target
  | .connectParam source target param => connectParam source target param
  | .disconnect target => disconnect target
  | .disconnectParam target param => disconnectParam target param

/-- The producer bound to a parameter, found by the place of the parameter. -/
def paramBinding (g : Graph) (id : ModuleId) (param : String) :
    Except Failure (Option ModuleId) := do
  let index ← plain (g.resolveParam id param)
  let m ← plain (g.get id)
  let slot ← reach m.params index
  return slot.binding

end Guarded

namespace Graph

/-- The graph that an edit leaves behind. -/
def next (g : Graph) (e : Edit) : Graph := ((Guarded.apply e).perform g).2

/-- The graph that a run of edits leaves behind. -/
def applyAll (g : Graph) (edits : List Edit) : Graph := edits.foldl next g

/-- The events of an edit: one if it succeeds and is of a kind that reports, and otherwise none. -/
def editEvents (g : Graph) (e : Edit) : List Event :=
  match ((Guarded.apply e).perform g).1 with
  | .ok report => report.toList
  | .error _ => []

end Graph

end Patchbay
