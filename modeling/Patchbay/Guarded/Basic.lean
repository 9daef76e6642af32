import Patchbay.Error

/-!
# Guards

The operations of the library read and write lists by place, look modules up by handle and count
cells, and their definitions give some value whatever the place, the handle and the counts are:
lists are as long as they need to be and numbers as large.  What runs on a machine has words of 64
bits and arrays of a bounded length.  The operations under `Guarded` are the same ones with a guard
before every such access and after every sum: a *breach* is what must not happen, and it ends the
program.  It is kept apart from the errors that an operation reports.

* `Breach`, `Failure`: what can go wrong, with `plain`, an operation seen as one without breaches.
* `Guarded.reach`, `Guarded.store`: guards of places.
* `Guarded.plus`, `Guarded.minus`, `Guarded.signed`, `Guarded.reserve`: guards of numbers.
-/

namespace Patchbay

/-- What must not happen. -/
inductive Breach where
  /-- A place outside a list is read or written. -/
  | outside (place size : Nat)
  /-- A number is taken from a smaller one. -/
  | below (number less : Nat)
  /-- A sum does not fit into a word. -/
  | overflow (sum : Nat)
  /-- An offset does not fit into a signed word. -/
  | beyond (offset : Int)
  /-- More texts are to be held than can be. -/
  | tooMany (texts : Nat)
  /-- A main input is neither in the registers nor in a kept output. -/
  | lost (consumer producer : ModuleId)
  /-- There are more or fewer initial values than cells. -/
  | miscounted (entries cells : Nat)
  deriving DecidableEq, Repr

/-- Why a guarded operation has no result: it reports an error, or a guard has found a breach. -/
inductive Failure where
  | refused (error : GraphError)
  | broken (breach : Breach)
  deriving DecidableEq, Repr

/-- An operation without breaches. -/
def plain {α : Type} (x : Except GraphError α) : Except Failure α := x.mapError .refused

namespace Guarded

variable {α : Type}

/-- The element at a place, which has to be there. -/
def reach (xs : List α) (k : Nat) : Except Failure α :=
  match xs[k]? with
  | some a => .ok a
  | none => .error (.broken (.outside k xs.length))

/-- The array with another element at a place, which has to be there. -/
def store (xs : Array α) (k : Nat) (a : α) : Except Failure (Array α) :=
  if k < xs.size then .ok (xs.setIfInBounds k a) else .error (.broken (.outside k xs.size))

/-- The sum of two numbers, which has to fit into a word. -/
def plus (a b : Nat) : Except Failure Nat :=
  if a + b < UInt64.size then .ok (a + b) else .error (.broken (.overflow (a + b)))

/-- The difference of two numbers, the first of which must not be smaller. -/
def minus (a b : Nat) : Except Failure Nat :=
  if b ≤ a then .ok (a - b) else .error (.broken (.below a b))

/-- Half the number of words: signed words go from its negative to just below it. -/
def halfRange : Nat := UInt64.size / 2

/-- A number that has to fit into a signed word. -/
def signed (x : Int) : Except Failure Int :=
  if -(halfRange : Int) ≤ x ∧ x < halfRange then .ok x else .error (.broken (.beyond x))

/-- How many texts can be held: an array takes fewer than `halfRange` bytes, and of every text it
has three words of eight bytes.  Memory up to there is taken to be available. -/
def maxTexts : Nat := (halfRange - 1) / 24

/-- Passes if there can be room for a number of texts. -/
def reserve (texts : Nat) : Except Failure Unit :=
  if texts ≤ maxTexts then .ok () else .error (.broken (.tooMany texts))

/-- Passes if an assertion holds. -/
def ensure (assertion : Prop) [Decidable assertion] (breach : Breach) : Except Failure Unit :=
  if assertion then .ok () else .error (.broken breach)

end Guarded

end Patchbay
