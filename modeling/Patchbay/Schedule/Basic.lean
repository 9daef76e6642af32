import Patchbay.Schedule.Walk

/-!
# Schedules

A schedule is the order in which modules run in every sample.

* `Schedule.position?`: the place of a module in the order, and `Schedule.positions`, the table in
  which it is looked up.
* `Schedule.predecessor?`: the module that runs just before.
* `Graph.schedule`: the schedule of a graph.
-/

namespace Patchbay

/-- The handles of the modules that run, in their order. -/
structure Schedule where
  order : List ModuleId
  deriving DecidableEq, Repr

namespace Schedule

/-- The schedule of modules that are in their order already. -/
def ofModules (modules : List Module) : Schedule := ⟨modules.map (·.id)⟩

def size (s : Schedule) : Nat := s.order.length

/-- The place of a module in the order. -/
def position? (s : Schedule) (id : ModuleId) : Option Nat := s.order.idxOf? id

/-- The table of places, the last entry first: were a module to come twice in the order, its later
place would count. -/
def positions (s : Schedule) : List (ModuleId × Nat) := s.order.zipIdx.reverse

/-- Whether a module runs at all. -/
def contains (s : Schedule) (id : ModuleId) : Bool := s.order.contains id

/-- The module that runs just before a module. -/
def predecessor? (s : Schedule) (id : ModuleId) : Option ModuleId :=
  match s.position? id with
  | some (k + 1) => s.order[k]?
  | _ => none

end Schedule

def Graph.schedule (g : Graph) : Except GraphError Schedule :=
  match g.scheduled with
  | .ok modules => .ok (.ofModules modules)
  | .error fault => .error fault.toError

end Patchbay
