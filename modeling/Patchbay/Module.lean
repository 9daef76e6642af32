import Patchbay.Error

/-!
# Modules

A module is an instance of a definition inside a graph.  It has a value for each parameter, and its
slots, the main input and one per parameter, may each be bound to a producer.  A bound parameter is
driven by its producer and its value rests.

* `Module.instantiate`: a module as it is before anything is connected.
* `Module.producers`: what the slots are bound to, in slot order.
* `Module.clearReferences`: the module when a producer has gone, and `Module.clear`, which also
  counts the slots that it frees.
-/

namespace Patchbay

structure Param where
  /-- The name, unique among the parameters of a module. -/
  name : String
  /-- The value that holds while no producer is bound. -/
  value : Binary32
  binding : Option ModuleId
  deriving DecidableEq, Repr

/-- An instance of a definition inside a graph. -/
structure Module where
  id : ModuleId
  definition : Definition
  name : String
  mainInput : Option ModuleId
  /-- The parameters, in the order of the definition. -/
  params : List Param
  deriving DecidableEq, Repr

namespace Module

/-- An unconnected module with the defaults of its definition. -/
def instantiate (id : ModuleId) (d : Definition) : Module where
  id := id
  definition := d
  name := d.displayName
  mainInput := none
  params := d.paramNames.mapIdx fun index name => ⟨name, d.defaultValue index, none⟩

def inChannels (m : Module) : UInt8 := m.definition.inChannels

def outChannels (m : Module) : UInt8 := m.definition.outChannels

/-- The module in words: its name and that of its definition. -/
def text (m : Module) : String := m.name ++ ": " ++ m.definition.name

def paramIndex? (m : Module) (name : String) : Option Nat := m.params.findIdx? (·.name = name)

def param? (m : Module) (name : String) : Option Param := m.params.find? (·.name = name)

/-- The producers of all bound slots: that of the main input first, then those of the parameters in
their order.  A producer is listed once for every slot bound to it. -/
def producers (m : Module) : List ModuleId :=
  m.mainInput.toList ++ m.params.filterMap (·.binding)

/-- Whether a slot is bound to a producer. -/
def isFedBy (m : Module) (producer : ModuleId) : Bool := m.producers.contains producer

/-- Whether the module takes an input and is given none. -/
def isStarved (m : Module) : Bool := m.inChannels ≠ 0 && m.mainInput.isNone

/-! ## Changes -/

def setName (m : Module) (name : String) : Module := { m with name := name }

/-- The module with its main input bound or freed. -/
def setMainInput (m : Module) (producer : Option ModuleId) : Module :=
  { m with mainInput := producer }

/-- The module with another value for the parameter at a place. -/
def setValue (m : Module) (index : Nat) (value : Binary32) : Module :=
  { m with params := m.params.modify index fun p => { p with value := value } }

/-- The module with the parameter at a place bound or freed. -/
def setBinding (m : Module) (index : Nat) (producer : Option ModuleId) : Module :=
  { m with params := m.params.modify index fun p => { p with binding := producer } }

/-- A binding that is freed if it is to `target`. -/
def release (target : ModuleId) (binding : Option ModuleId) : Option ModuleId :=
  if binding = some target then none else binding

/-- The module with every slot freed that is bound to `target`. -/
def clearReferences (m : Module) (target : ModuleId) : Module :=
  { m with
    mainInput := release target m.mainInput
    params := m.params.map fun p => { p with binding := release target p.binding } }

/-- Frees the parameters that are bound to `target`, and counts them. -/
def clearParams (target : ModuleId) : List Param → List Param × Nat
  | [] => ([], 0)
  | p :: params =>
    let (rest, freed) := clearParams target params
    if p.binding = some target then ({ p with binding := none } :: rest, freed + 1)
    else (p :: rest, freed)

/-- Frees every slot that is bound to `target`, and counts them. -/
def clear (m : Module) (target : ModuleId) : Module × Nat :=
  let (params, freed) := clearParams target m.params
  if m.mainInput = some target then ({ m with mainInput := none, params }, freed + 1)
  else ({ m with params }, freed)

end Module

end Patchbay
