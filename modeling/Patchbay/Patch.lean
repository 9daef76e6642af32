import Patchbay.Program

/-!
# Patches

A patch is a compiled graph: the order in which its modules run, the layout of its state array, and
the two script texts made from them.

* `Patch.ofModules`: the patch of modules that run in a given order.
* `Graph.compile`: the patch of a graph, whatever number of cells it asks for.  What runs is
  `Guarded.compile`, which gives this patch if its cells can be counted and held.
-/

namespace Patchbay

structure Patch where
  schedule : Schedule
  layout : Layout
  /-- The initial state array, as an array literal. -/
  values : String
  /-- The statements that are run once per sample. -/
  code : String
  deriving DecidableEq, Repr

namespace Patch

/-- The patch of modules that run in the given order. -/
def ofModules (modules : List Module) : Patch :=
  let schedule := Schedule.ofModules modules
  let layout := Layout.ofModules modules
  { schedule
    layout
    values := renderEntries (entries modules schedule layout)
    code := renderProgram (program modules layout) }

/-- How many cells the state array has. -/
def stateSize (p : Patch) : Nat := p.layout.size

/-- The two script texts, values first. -/
def texts (p : Patch) : String × String := (p.values, p.code)

end Patch

/-- **The patch of a graph.**  There is none if a module that the sink needs is not given its input
or feeds back into itself. -/
def Graph.compile (g : Graph) : Except GraphError Patch :=
  match g.scheduled with
  | .ok modules => .ok (.ofModules modules)
  | .error fault => .error fault.toError

/-- The two script texts of a graph, values first. -/
def Graph.generate (g : Graph) : Except GraphError (String × String) :=
  return (← g.compile).texts

end Patchbay
