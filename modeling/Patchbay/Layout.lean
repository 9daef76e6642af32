import Patchbay.Module

/-!
# The layout of the state array

Every module that runs owns a range of cells in the state array of its voice: one cell per
parameter, then its workspace, then its output if that is kept.

```
[ param 0 .. param n-1 | workspace 0 .. workspace w-1 | left, right ]
  ^ start                                               ^ only if buffered
```

An output normally travels to its consumer in the registers, which works for the module that runs
right after.  A consumer further on has to read it back from the array, and then it is kept there,
or *buffered*.

Cells are counted here without a bound.  A layout is one that can be used if its cells fit into a
machine; the sums as they run, in words of 64 bits, are in `Guarded.allocate`.

* `Node`: the range of one module.
* `readBack`: the producers whose outputs have to be read back.
* `Layout.ofModules`: the ranges of all modules, end to end in the order in which they run.
-/

namespace Patchbay

/-- The range of cells of one module. -/
structure Node where
  owner : ModuleId
  start : Nat
  paramCount : Nat
  /-- How many cells the fragment keeps for itself. -/
  workspaceSize : Nat
  outChannels : Nat
  /-- Whether the output is kept in cells of its own. -/
  buffered : Bool
  deriving DecidableEq, Repr

namespace Node

/-- How many cells hold the output. -/
def outputCount (n : Node) : Nat := if n.buffered then n.outChannels else 0

def count (n : Node) : Nat := n.paramCount + n.workspaceSize + n.outputCount

/-- The first cell behind the range. -/
def stop (n : Node) : Nat := n.start + n.count

def paramCell (n : Node) (index : Nat) : Nat := n.start + index

/-- The first cell of the workspace. -/
def workspaceCell (n : Node) : Nat := n.start + n.paramCount

/-- The first cell of the output, if it is kept. -/
def outputCell? (n : Node) : Option Nat :=
  if n.buffered then some (n.start + n.paramCount + n.workspaceSize) else none

/-- The range of a module from a given cell on. -/
def ofModule (m : Module) (start : Nat) (buffered : Bool) : Node where
  owner := m.id
  start := start
  paramCount := m.definition.paramCount
  workspaceSize := m.definition.workspaceSize.toNat
  outChannels := m.definition.outChannels.toNat
  buffered := buffered

end Node

/-- The ranges of the modules of a patch, in the order in which the modules run. -/
structure Layout where
  nodes : List Node
  deriving DecidableEq, Repr

/-- The producers that consumers have to read back, over modules in their order: of every module all
its producers but the one that runs just before it. -/
def readBack (previous : Option ModuleId) : List Module → List ModuleId
  | [] => []
  | m :: ms => m.producers.filter (previous ≠ some ·) ++ readBack (some m.id) ms

namespace Layout

/-- Ranges end to end from a cell on, those of the modules in `kept` with room for the output. -/
def placeFrom (kept : List ModuleId) (start : Nat) : List Module → List Node
  | [] => []
  | m :: ms =>
    let node := Node.ofModule m start (kept.contains m.id)
    node :: placeFrom kept node.stop ms

/-- Every module gets one range, in the order of the modules. -/
theorem map_owner_placeFrom (kept : List ModuleId) :
    ∀ (start : Nat) (ms : List Module),
      (placeFrom kept start ms).map (·.owner) = ms.map (·.id)
  | _, [] => rfl
  | start, m :: ms => by
    rw [placeFrom, List.map_cons, List.map_cons, map_owner_placeFrom]
    rfl

/-- **The layout** of modules that run in the given order. -/
def ofModules (modules : List Module) : Layout := ⟨placeFrom (readBack none modules) 0 modules⟩

def get? (l : Layout) (id : ModuleId) : Option Node := l.nodes.find? (·.owner = id)

/-- How many cells the state array has. -/
def size (l : Layout) : Nat := l.nodes.foldr (·.count + ·) 0

def bufferedCount (l : Layout) : Nat := l.nodes.countP (·.buffered)

end Layout

end Patchbay
