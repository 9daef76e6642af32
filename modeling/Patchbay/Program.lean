import Patchbay.Layout
import Patchbay.Literal
import Patchbay.Schedule.Basic

/-!
# Programs

The program of a voice runs once per sample.  It works on the state array `v`, a cursor `i` into it
and two registers `l` and `r`.  Each module in turn finds the cursor at the start of its range and
its input in the registers; its fragment moves the cursor over its parameters and its workspace,
and leaves its output in the registers.  The statements around the fragments move signals that the
registers cannot carry: all their addresses are relative to the cursor.

* `Statement`, `Statement.render`: the statements and their text.
* `program`: the statements of modules that run in a given order.
* `entries`: the initial values of the cells.
-/

namespace Patchbay

/-- A register for one channel of a signal. -/
inductive Register where
  | left
  | right
  deriving DecidableEq, Repr

def Register.text : Register → String
  | .left => "l"
  | .right => "r"

inductive Statement where
  | load (register : Register) (offset : Int)
  /-- Runs the fragment of a module, which is that of its definition. -/
  | fragment (owner : ModuleId) (definition : Definition)
  /-- Stores a register in the cell under the cursor and moves the cursor on. -/
  | store (register : Register)
  /-- Writes the left register to a parameter cell. -/
  | modulate (offset : Int)
  deriving DecidableEq, Repr

/-- The address of a cell, relative to the cursor: `i`, `i+3` or `i-5`. -/
def cursorText (offset : Int) : String :=
  if offset = 0 then "i"
  else if 0 < offset then "i+" ++ toString offset
  else "i" ++ toString offset

/-- A text with a line feed at its end, unless it is empty or has one already. -/
def endLine (text : String) : String :=
  if text.toList.getLast?.all (· = '\n') then text else text ++ "\n"

def Statement.render : Statement → String
  | .load register offset => register.text ++ "=v[" ++ cursorText offset ++ "];\n"
  | .fragment _ definition => endLine definition.code
  | .store register => "v[i++]=" ++ register.text ++ ";\n"
  | .modulate offset => "v[" ++ cursorText offset ++ "]=l;\n"

def renderProgram (statements : List Statement) : String :=
  String.join (statements.map Statement.render)

/-! ## Statements around a fragment -/

/-- How far a cell lies from a base. -/
def distance (cell base : Nat) : Int := (cell : Int) - (base : Int)

/-- Reads the main input back, unless its producer ran just before and has left it in the
registers. -/
def inputStatements (layout : Layout) (previous : Option ModuleId) (m : Module) (node : Node) :
    List Statement :=
  match m.mainInput with
  | none => []
  | some producer =>
    if previous = some producer then []
    else
      match (layout.get? producer).bind Node.outputCell? with
      | none => []
      | some cell =>
        let offset := distance cell node.start
        .load .left offset :: if m.inChannels = 2 then [.load .right (offset + 1)] else []

/-- Keeps the output, if that is asked for. -/
def outputStatements (node : Node) : List Statement :=
  if node.buffered then
    .store .left :: if node.outChannels = 2 then [.store .right] else []
  else []

/-- The parameter cells of a module that are driven from outside, each after its producer. -/
def drivenCells (m : Module) (node : Node) : List (ModuleId × Nat) :=
  (m.params.mapIdx fun index p => p.binding.map (·, node.paramCell index)).reduceOption
    |>.filter (·.1 ≠ m.id)

/-- All driven parameter cells, in the order in which their owners run. -/
def allDrivenCells (placed : List (Module × Node)) : List (ModuleId × Nat) :=
  placed.flatMap fun (m, node) => drivenCells m node

/-- Writes the output to every parameter cell that the module drives.  The cursor is at the end of
the range of the module by then. -/
def fanOutStatements (driven : List (ModuleId × Nat)) (m : Module) (node : Node) :
    List Statement :=
  (driven.filter (·.1 = m.id)).map fun (_, cell) => .modulate (distance cell node.stop)

def moduleStatements (layout : Layout) (driven : List (ModuleId × Nat))
    (previous : Option ModuleId) (m : Module) (node : Node) : List Statement :=
  inputStatements layout previous m node ++ [.fragment m.id m.definition] ++
    outputStatements node ++ fanOutStatements driven m node

/-- The statements of modules in the order in which they run. -/
def statementsFrom (layout : Layout) (driven : List (ModuleId × Nat)) (previous : Option ModuleId) :
    List (Module × Node) → List Statement
  | [] => []
  | (m, node) :: placed =>
    moduleStatements layout driven previous m node ++
      statementsFrom layout driven (some m.id) placed

/-- **The program** of modules that run in the given order. -/
def program (modules : List Module) (layout : Layout) : List Statement :=
  let placed := modules.zip layout.nodes
  statementsFrom layout (allDrivenCells placed) none placed

/-! ## Initial values -/

/-- The initial value of a parameter of the module at place `k` of the order.  A driven parameter
starts at zero; were its producer to run later in the order, it would stay blank. -/
def paramEntry (schedule : Schedule) (k : Nat) (p : Param) : String :=
  match p.binding with
  | none => p.value.literal
  | some producer =>
    match schedule.position? producer with
    | some position => if k < position then "" else "0"
    | none => "0"

/-- The initial values of the cells of a module: its parameters, then zeros. -/
def moduleEntries (schedule : Schedule) (k : Nat) (m : Module) (node : Node) : List String :=
  m.params.map (paramEntry schedule k) ++ List.replicate (node.count - node.paramCount) "0"

/-- **The initial values** of all cells, in the order of the cells. -/
def entries (modules : List Module) (schedule : Schedule) (layout : Layout) : List String :=
  ((modules.zip layout.nodes).mapIdx fun k (m, node) => moduleEntries schedule k m node).flatten

/-- The text of an array literal. -/
def renderEntries (items : List String) : String := "[" ++ ",".intercalate items ++ "]"

end Patchbay
