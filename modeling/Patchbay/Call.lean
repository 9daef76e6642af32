import Patchbay.Error

/-!
# Calls

A call works on a state in place.  It gives a result or fails, and it leaves a state behind in
either case: what it has written before it fails stays written.  So it is a fact about a call, and
not about the form in which it is given, that it changes nothing when it is refused.

* `Call`, `Call.perform`: calls, and what comes of a call on a state.
* `Call.check`: a step that does not touch the state.
-/

namespace Patchbay

/-- A call on a state of type `σ`, which gives an `α` or fails with an `ε`. -/
abbrev Call (σ ε α : Type) : Type := ExceptT ε (StateM σ) α

namespace Call

variable {σ ε α : Type}

/-- The result of a call, and the state that it leaves behind. -/
def perform (call : Call σ ε α) (s : σ) : Except ε α × σ := call.run.run s

/-- A step that does not touch the state. -/
def check (x : Except ε α) : Call σ ε α := ExceptT.mk (pure x)

end Call

end Patchbay
