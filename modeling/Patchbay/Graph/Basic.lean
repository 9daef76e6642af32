import Patchbay.Catalog
import Patchbay.Module

/-!
# Graphs

A graph is a patch under construction: the sink and any number of other modules, each under a
handle.  The modules lie in an arena in which the place of a module is the number of its handle; a
module that is removed leaves its place empty, so that its handle never comes to mean another one.

* `Graph.new`: the graph of a catalog, with the sink alone.
* `Graph.get?`, `Graph.modules`: the modules.
* `Graph.param`, `Graph.mainInput`, `Graph.paramBinding`: what is asked of one module.
-/

namespace Patchbay

structure Graph where
  name : String
  catalog : Catalog
  /-- The modules by handle number, with an empty place for every removed one. -/
  arena : Array (Option Module)
  deriving DecidableEq, Repr

namespace Graph

/-- The display name of the sink. -/
def sinkDisplayName : String := "Output"

/-- The graph with the sink alone.  The catalog has to define one. -/
def new (catalog : Catalog) : Except GraphError Graph := do
  let d ← catalog.lookup sinkName
  let sink := (Module.instantiate .sink d).setName sinkDisplayName
  return { name := "", catalog, arena := #[some sink] }

/-- The module of a handle, if there is one. -/
def get? (g : Graph) (id : ModuleId) : Option Module := g.arena[id.index]?.join

/-- The module of a handle, which has to be there. -/
def get (g : Graph) (id : ModuleId) : Except GraphError Module :=
  match g.get? id with
  | some m => .ok m
  | none => .error (.notMember id)

/-- Whether a handle has a module. -/
def contains (g : Graph) (id : ModuleId) : Bool := (g.get? id).isSome

/-- The modules in the order in which they were added, the sink first. -/
def modules (g : Graph) : List Module := g.arena.toList.reduceOption

def moduleCount (g : Graph) : Nat := g.modules.length

/-- The graph in words: its name and the number of its modules. -/
def text (g : Graph) : String := g.name ++ " (" ++ toString g.moduleCount ++ ")"

/-- The place of a parameter of a module, both of which have to be there. -/
def resolveParam (g : Graph) (id : ModuleId) (param : String) : Except GraphError Nat := do
  let m ← g.get id
  match m.paramIndex? param with
  | some index => .ok index
  | none => .error (.noSuchParam m.name param)

def param (g : Graph) (id : ModuleId) (param : String) : Except GraphError Binary32 := do
  let m ← g.get id
  match m.param? param with
  | some p => .ok p.value
  | none => .error (.noSuchParam m.name param)

/-- The producer bound to a main input. -/
def mainInput (g : Graph) (id : ModuleId) : Except GraphError (Option ModuleId) :=
  return (← g.get id).mainInput

/-- The producer bound to a parameter. -/
def paramBinding (g : Graph) (id : ModuleId) (param : String) :
    Except GraphError (Option ModuleId) := do
  let m ← g.get id
  match m.param? param with
  | some p => .ok p.binding
  | none => .error (.noSuchParam m.name param)

end Graph

end Patchbay
