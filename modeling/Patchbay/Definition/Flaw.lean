import Patchbay.Definition.Basic

/-!
# What can be wrong with a definition

`Definition.flaw?` finds the first flaw of a definition: channel counts above two, a number of
defaults that is not the number of parameters, a repeated parameter name, or outputs on the sink.
The flaws are looked for in this order, and a catalog takes only definitions without any.
-/

namespace Patchbay

namespace Definition

def maxChannels : UInt8 := 2

/-- Why a definition cannot be used. -/
inductive Flaw where
  | channels (inChannels outChannels : UInt8)
  | defaultCount (defaults params : Nat)
  | duplicate (param : String)
  | sinkOutputs
  deriving DecidableEq, Repr

def Flaw.message : Flaw → String
  | .channels i o =>
    "channel counts must be 0, 1 or 2 (in=" ++ toString i.toNat ++ ", out=" ++
      toString o.toNat ++ ")"
  | .defaultCount defaults params =>
    toString defaults ++ " defaults for " ++ toString params ++ " parameters"
  | .duplicate param => "duplicate parameter '" ++ param ++ "'"
  | .sinkOutputs => "the sink must not have outputs"

/-- The first element of a list that occurs before, among `seen` or in the list. -/
def firstRepeat? (seen : List String) : List String → Option String
  | [] => none
  | name :: names => if name ∈ seen then some name else firstRepeat? (seen ++ [name]) names

/-- The flaw of the channel counts. -/
def channelFlaw? (d : Definition) : Option Flaw :=
  if maxChannels < d.inChannels ∨ maxChannels < d.outChannels then
    some (.channels d.inChannels d.outChannels)
  else none

/-- The flaw of the number of defaults. -/
def defaultFlaw? (d : Definition) : Option Flaw :=
  match d.paramDefaults with
  | some defaults =>
    if defaults.length = d.paramCount then none
    else some (.defaultCount defaults.length d.paramCount)
  | none => none

/-- The flaw of the parameter names. -/
def nameFlaw? (d : Definition) : Option Flaw := (firstRepeat? [] d.paramNames).map .duplicate

def sinkFlaw? (d : Definition) : Option Flaw :=
  if d.isSink ∧ d.outChannels ≠ 0 then some .sinkOutputs else none

/-- **The first flaw** of a definition, if it has one. -/
def flaw? (d : Definition) : Option Flaw :=
  d.channelFlaw? <|> d.defaultFlaw? <|> d.nameFlaw? <|> d.sinkFlaw?

end Definition

end Patchbay
