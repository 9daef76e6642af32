import Patchbay.Definition.Flaw

/-!
# Handles and errors

`ModuleId` is the handle of a module in a graph.  `GraphError` lists every reason for which an
operation on a catalog or on a graph is refused, and `GraphError.message` gives the wording.
-/

namespace Patchbay

/-- The handle of a module in a graph.  Handles are given out in ascending order and never again, of
which `Graph.nextId` says up to how many. -/
structure ModuleId where
  index : Nat
  deriving DecidableEq, Repr, Inhabited

/-- The handle of the module that every graph ends in. -/
def ModuleId.sink : ModuleId := ⟨0⟩

def ModuleId.text (id : ModuleId) : String := "ModuleId(" ++ toString id.index ++ ")"

/-- A place of a module that a producer can be bound to. -/
inductive Slot where
  | input
  | param (name : String)
  deriving DecidableEq, Repr

def Slot.text : Slot → String
  | .input => "input"
  | .param name => "param '" ++ name ++ "'"

/-- Why an operation on a catalog or a graph is refused.  Modules are named by their display names,
except for a handle that no module has. -/
inductive GraphError where
  /-- The catalog has no definition of this name. -/
  | notFound (definition : String)
  /-- No module of the graph has this handle. -/
  | notMember (id : ModuleId)
  | noOutput (name : String)
  | noInput (name : String)
  /-- The consumer takes another number of channels than the producer gives. -/
  | channelMismatch (name : String) (expected found : UInt8)
  | slotOccupied (name : String) (slot : Slot)
  /-- The producer does not have the single output channel that modulates a parameter. -/
  | notMono (name : String)
  /-- The module has no parameter of this name. -/
  | noSuchParam (name param : String)
  /-- A module that takes an input is given none. -/
  | unconnectedInput (name : String)
  | cycle (name : String)
  | sinkRemoval
  | invalidDefinition (definition : String) (flaw : Definition.Flaw)
  deriving DecidableEq, Repr

def GraphError.message : GraphError → String
  | .notFound definition => "module definition '" ++ definition ++ "' not found"
  | .notMember id => "module " ++ id.text ++ " is not in the graph"
  | .noOutput name => "module " ++ name ++ " has no output"
  | .noInput name => "module " ++ name ++ " has no input"
  | .channelMismatch name expected found =>
    "module " ++ name ++ " needs " ++ toString expected.toNat ++ " input channels, got " ++
      toString found.toNat
  | .slotOccupied name slot => slot.text ++ " of " ++ name ++ " is already connected"
  | .notMono name => "module " ++ name ++ " needs 1 output channel to modulate a parameter"
  | .noSuchParam name param => "module " ++ name ++ " has no parameter '" ++ param ++ "'"
  | .unconnectedInput name => "input of module " ++ name ++ " is not connected"
  | .cycle name => "module " ++ name ++ " is part of a feedback cycle"
  | .sinkRemoval => "the output module cannot be removed"
  | .invalidDefinition definition flaw =>
    "invalid module definition '" ++ definition ++ "': " ++ flaw.message

/-- Passes if the condition holds and fails with the given error otherwise. -/
def require {ε : Type} (condition : Prop) [Decidable condition] (error : ε) : Except ε Unit :=
  if condition then .ok () else .error error

end Patchbay
