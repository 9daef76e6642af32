import Patchbay.Guarded.Basic
import Patchbay.Patch

/-!
# Compiling as it runs

Compiling goes over the places of the order: it marks the outputs that are read from further on,
gives every module its range, and emits the initial values and the statements of each range.  Here
this is done place by place, with a guard before every lookup, every access by place and every
subtraction, and after every sum, and with the two facts that emission takes for granted asserted
where it needs them: a main input that the registers do not carry is in a kept output, and there is
one initial value for every cell.

* `Guarded.count`, `Guarded.stop`, `Guarded.paramCell`, `Guarded.outputCell`: the cells of a range.
* `Guarded.allocate`, `Guarded.emit`: the stages.
* `Guarded.compile`: **the patch of a graph, if its cells can be counted and held.**
-/

namespace Patchbay.Guarded

/-! ## Ranges -/

/-- How many cells a range has. -/
def count (node : Node) : Except Failure Nat := do
  plus (← plus node.paramCount node.workspaceSize) node.outputCount

/-- The first cell behind a range. -/
def stop (node : Node) : Except Failure Nat := do
  plus node.start (← count node)

def paramCell (node : Node) (index : Nat) : Except Failure Nat := plus node.start index

/-- The first cell of the output, if it is kept. -/
def outputCell (node : Node) : Except Failure (Option Nat) :=
  if node.buffered then do
    return some (← plus (← plus node.start node.paramCount) node.workspaceSize)
  else return none

/-- How far a cell lies from a base, in signed words. -/
def relative (cell base : Nat) : Except Failure Int := do
  signed ((← signed cell) - (← signed base))

/-! ## Allocating -/

/-- The module that runs just before, read from the order by its place. -/
def predecessor (s : Schedule) (table : List (ModuleId × Nat)) (id : ModuleId) :
    Except Failure (Option ModuleId) :=
  match table.lookup id with
  | some (k + 1) => return some (← reach s.order k)
  | _ => return none

/-- Marks the output of a producer, unless the consumer at the place given runs right after it. -/
def mark (table : List (ModuleId × Nat)) (place : Nat) (marks : Array Bool) (producer : ModuleId) :
    Except Failure (Array Bool) :=
  match table.lookup producer with
  | some k => if k + 1 ≠ place then store marks k true else return marks
  | none => return marks

/-- Marks what the modules read back that run from a place on. -/
def marksFrom (g : Graph) (table : List (ModuleId × Nat)) (place : Nat) (marks : Array Bool) :
    List ModuleId → Except Failure (Array Bool)
  | [] => return marks
  | id :: ids => do
    let m ← plain (g.get id)
    let marks ← m.producers.foldlM (mark table place) marks
    marksFrom g table (place + 1) marks ids

/-- The ranges of the modules that run from a place on. -/
def nodesFrom (g : Graph) (marks : List Bool) (place start : Nat) :
    List ModuleId → Except Failure (List Node)
  | [] => return []
  | id :: ids => do
    let m ← plain (g.get id)
    let buffered ← reach marks place
    let node := { Node.ofModule m start buffered with owner := id }
    let behind ← stop node
    return node :: (← nodesFrom g marks (place + 1) behind ids)

/-- **Allocates the state array.** -/
def allocate (g : Graph) (s : Schedule) : Except Failure Layout := do
  let marks ← marksFrom g s.positions 0 (Array.replicate s.order.length false) s.order
  return ⟨← nodesFrom g marks.toList 0 0 s.order⟩

/-! ## Emitting -/

/-- The initial value of a parameter of the module at a place of the order. -/
def entry (table : List (ModuleId × Nat)) (place : Nat) (p : Param) : String :=
  match p.binding with
  | none => p.value.literal
  | some producer =>
    match table.lookup producer with
    | some position => if place < position then "" else "0"
    | none => "0"

/-- The initial values of the cells of a module. -/
def values (table : List (ModuleId × Nat)) (place : Nat) (m : Module) (node : Node) :
    Except Failure (List String) := do
  let zeros ← minus (← count node) node.paramCount
  return m.params.map (entry table place) ++ List.replicate zeros "0"

/-- Reads the main input back.  Its producer has to be the module that ran just before or to have a
kept output. -/
def input (s : Schedule) (table : List (ModuleId × Nat)) (layout : Layout) (m : Module)
    (node : Node) : Except Failure (List Statement) :=
  match m.mainInput with
  | none => return []
  | some producer => do
    if (← predecessor s table node.owner) = some producer then return []
    match ← (layout.get? producer).elim (return none) outputCell with
    | none => .error (.broken (.lost node.owner producer))
    | some cell =>
      let offset ← relative cell node.start
      if m.inChannels = 2 then return [.load .left offset, .load .right (← signed (offset + 1))]
      else return [.load .left offset]

/-- The write to a parameter of another range, given with its place there, if the module drives
it. -/
def modulation (node target : Node) (slot : Param × Nat) : Except Failure (Option Statement) :=
  if slot.1.binding = some node.owner then do
    return some (.modulate (← relative (← paramCell target slot.2) (← stop node)))
  else return none

/-- Writes the output of a module to the parameter cells that it drives in other ranges. -/
def fanOut (g : Graph) (node : Node) : List Node → Except Failure (List Statement)
  | [] => return []
  | target :: targets =>
    if target.owner = node.owner then fanOut g node targets
    else do
      let consumer ← plain (g.get target.owner)
      let statements ← consumer.params.zipIdx.mapM (modulation node target)
      return statements.reduceOption ++ (← fanOut g node targets)

/-- The initial values and the statements of the ranges from a place on. -/
def emitFrom (g : Graph) (s : Schedule) (table : List (ModuleId × Nat)) (layout : Layout)
    (place : Nat) : List Node → Except Failure (List String × List Statement)
  | [] => return ([], [])
  | node :: nodes => do
    let m ← plain (g.get node.owner)
    let cells ← values table place m node
    let loads ← input s table layout m node
    let writes ← fanOut g node layout.nodes
    let (entries, statements) ← emitFrom g s table layout (place + 1) nodes
    return (cells ++ entries,
      loads ++ [.fragment m.id m.definition] ++ outputStatements node ++ writes ++ statements)

/-- **Emits the two texts.**  There has to be room for the initial values, and there has to be one
of them for every cell. -/
def emit (g : Graph) (s : Schedule) (layout : Layout) : Except Failure Patch := do
  reserve layout.size
  let (entries, statements) ← emitFrom g s s.positions layout 0 layout.nodes
  ensure (entries.length = layout.size) (.miscounted entries.length layout.size)
  return {
    schedule := s
    layout
    values := renderEntries entries
    code := renderProgram statements }

/-! ## Compiling -/

/-- **Compiles a graph as it runs.** -/
def compile (g : Graph) : Except Failure Patch := do
  let s ← plain g.schedule
  let layout ← allocate g s
  emit g s layout

end Patchbay.Guarded
