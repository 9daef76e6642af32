import Patchbay.Graph.Basic

/-!
# Editing a graph

An edit has conditions, which are checked in a fixed order.  The functions below say what it comes
to: the changed graph, or the error of the first condition that fails.  `Guarded.apply` is the edit
as it runs, step by step on a graph in place.

* `Graph.add`, `Graph.addModule`, `Graph.remove`, `Graph.rename`, `Graph.setName`, `Graph.setParam`:
  modules, names and values.
* `Graph.connect`, `Graph.connectParam`, `Graph.disconnect`, `Graph.disconnectParam`: the slots.
* `Graph.Edit`, `Graph.apply`: the edits as data.
-/

namespace Patchbay.Graph

/-- The graph with the module of a handle changed. -/
def modifyModule (g : Graph) (id : ModuleId) (change : Module → Module) : Graph :=
  { g with arena := g.arena.modify id.index (Option.map change) }

/-- Changing a module changes what its handle stands for and nothing else. -/
theorem get?_modifyModule (g : Graph) (id other : ModuleId) (change : Module → Module) :
    (g.modifyModule id change).get? other =
      if id = other then (g.get? other).map change else g.get? other := by
  obtain ⟨i⟩ := id
  obtain ⟨j⟩ := other
  simp only [get?, modifyModule, Array.getElem?_modify, ModuleId.mk.injEq]
  by_cases h : i = j
  · subst h
    cases hi : g.arena[i]? with
    | none => simp
    | some m => cases m <;> simp
  · simp [h]

/-! ## Modules, names and values -/

/-- The handle that the next module gets.  Handles are numbered without a bound here.  Numbered in
32 bits they come round after `2 ^ 32` additions: there, what is said of handles is said of graphs
to which fewer modules than that have been added. -/
def nextId (g : Graph) : ModuleId := ⟨g.arena.size⟩

/-- Adds a module of the named definition under the next handle. -/
def add (g : Graph) (definition : String) : Except GraphError Graph := do
  let d ← g.catalog.lookup definition
  return { g with arena := g.arena.push (some (.instantiate g.nextId d)) }

/-- Adds a module and gives its handle beside the graph. -/
def addModule (g : Graph) (definition : String) : Except GraphError (ModuleId × Graph) :=
  return (g.nextId, ← g.add definition)

/-- Removes a module and frees every slot that is bound to it. -/
def remove (g : Graph) (id : ModuleId) : Except GraphError Graph := do
  let _ ← g.get id
  require (id ≠ .sink) .sinkRemoval
  let cleared := g.arena.map (Option.map (·.clearReferences id))
  return { g with arena := cleared.setIfInBounds id.index none }

def rename (g : Graph) (id : ModuleId) (name : String) : Except GraphError Graph := do
  let _ ← g.get id
  return g.modifyModule id (·.setName name)

def setName (g : Graph) (name : String) : Graph := { g with name := name }

def setParam (g : Graph) (id : ModuleId) (param : String) (value : Binary32) :
    Except GraphError Graph := do
  let index ← g.resolveParam id param
  return g.modifyModule id (·.setValue index value)

/-! ## Slots -/

/-- The two modules of a connection, the first of which has to have an output. -/
def endpoints (g : Graph) (source target : ModuleId) : Except GraphError (Module × Module) := do
  let sender ← g.get source
  let receiver ← g.get target
  require (sender.outChannels ≠ 0) (.noOutput sender.name)
  return (sender, receiver)

/-- Binds the main input of `target` to `source`.  It has to be free, and the channel counts have to
agree. -/
def connect (g : Graph) (source target : ModuleId) : Except GraphError Graph := do
  let (sender, receiver) ← g.endpoints source target
  require (receiver.inChannels ≠ 0) (.noInput receiver.name)
  require (receiver.inChannels = sender.outChannels)
    (.channelMismatch receiver.name receiver.inChannels sender.outChannels)
  require (receiver.mainInput = none) (.slotOccupied receiver.name .input)
  return g.modifyModule target (·.setMainInput (some source))

/-- Binds a parameter of `target` to `source`.  It has to be free, and the producer has to have one
output channel. -/
def connectParam (g : Graph) (source target : ModuleId) (param : String) :
    Except GraphError Graph := do
  let (sender, receiver) ← g.endpoints source target
  require (sender.outChannels = 1) (.notMono sender.name)
  match receiver.paramIndex? param with
  | none => .error (.noSuchParam receiver.name param)
  | some index =>
    require ((receiver.params[index]?.bind (·.binding)) = none)
      (.slotOccupied receiver.name (.param param))
    return g.modifyModule target (·.setBinding index (some source))

/-- Frees the main input of a module that has one, bound or not. -/
def disconnect (g : Graph) (target : ModuleId) : Except GraphError Graph := do
  let receiver ← g.get target
  require (receiver.inChannels ≠ 0) (.noInput receiver.name)
  return g.modifyModule target (·.setMainInput none)

/-- Frees a parameter, bound or not. -/
def disconnectParam (g : Graph) (target : ModuleId) (param : String) : Except GraphError Graph := do
  let index ← g.resolveParam target param
  return g.modifyModule target (·.setBinding index none)

/-! ## Edits as data -/

inductive Edit where
  | add (definition : String)
  | remove (id : ModuleId)
  | rename (id : ModuleId) (name : String)
  | setName (name : String)
  | setParam (id : ModuleId) (param : String) (value : Binary32)
  | connect (source target : ModuleId)
  | connectParam (source target : ModuleId) (param : String)
  | disconnect (target : ModuleId)
  | disconnectParam (target : ModuleId) (param : String)
  deriving DecidableEq, Repr

def apply (g : Graph) : Edit → Except GraphError Graph
  | .add definition => g.add definition
  | .remove id => g.remove id
  | .rename id name => g.rename id name
  | .setName name => .ok (g.setName name)
  | .setParam id param value => g.setParam id param value
  | .connect source target => g.connect source target
  | .connectParam source target param => g.connectParam source target param
  | .disconnect target => g.disconnect target
  | .disconnectParam target param => g.disconnectParam target param

end Patchbay.Graph
