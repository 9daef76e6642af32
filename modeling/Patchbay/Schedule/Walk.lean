import Patchbay.Graph.Basic

/-!
# The walk from the sink

The order in which modules run is found by a depth-first walk from the sink.  It enters a module,
goes on to the producers of its slots in their order, and places the module when all of them are
placed.  A producer that is placed already is passed over, and one that was entered but is not
placed yet lies on the path to itself, which is a feedback cycle.

The walk keeps its path in a list of frames instead of the call stack, so that its depth is bounded
by nothing but the graph.  `Walk.step` is one move and `Walk.run` the whole walk; every move makes
`Walk.remaining` smaller, which counts the moves still ahead: one for every module not entered and
for every slot of it, and the same for what is left of the frames on the path.
-/

namespace Patchbay

/-- How far the walk has come with a module. -/
inductive Mark where
  /-- It is on the path, and some of its producers are still to be placed. -/
  | entered
  | placed
  deriving DecidableEq, Repr

/-- A module on the path of the walk. -/
structure Frame where
  id : ModuleId
  entry : Module
  /-- The producers of its slots that are still to be looked at. -/
  pending : List ModuleId
  deriving DecidableEq, Repr

/-- Why a graph has no order. -/
inductive WalkFault where
  /-- A slot is bound to a handle without a module. -/
  | notMember (id : ModuleId)
  /-- A module takes an input and is given none. -/
  | unconnected (name : String)
  | cycle (id : ModuleId) (name : String)
  deriving DecidableEq, Repr

/-- The error that a fault is reported as. -/
def WalkFault.toError : WalkFault → GraphError
  | .notMember id => .notMember id
  | .unconnected name => .unconnectedInput name
  | .cycle _ name => .cycle name

/-- The marks of the handles of a graph. -/
structure Marks (g : Graph) where
  cells : Vector (Option Mark) g.arena.size

namespace Marks

variable {g : Graph}

def none (g : Graph) : Marks g := ⟨Vector.replicate g.arena.size .none⟩

def get (marks : Marks g) (id : ModuleId) : Option Mark := marks.cells[id.index]?.join

def set (marks : Marks g) (id : ModuleId) (mark : Mark) : Marks g :=
  ⟨marks.cells.setIfInBounds id.index (some mark)⟩

theorem get_none (id : ModuleId) : (Marks.none g).get id = .none := by
  simp only [get, Marks.none, Vector.getElem?_replicate]
  split <;> rfl

theorem get_set (marks : Marks g) (id other : ModuleId) (mark : Mark) :
    (marks.set id mark).get other =
      if id = other ∧ id.index < g.arena.size then some mark else marks.get other := by
  obtain ⟨i⟩ := id
  obtain ⟨j⟩ := other
  simp only [get, set, Vector.getElem?_setIfInBounds, ModuleId.mk.injEq]
  by_cases h : i = j
  · subst h
    by_cases hi : i < g.arena.size <;> simp [hi]
  · simp [h]

end Marks

/-- The state of the walk through a graph. -/
structure Walk (g : Graph) where
  /-- How far the walk has come with each module. -/
  marks : Marks g
  path : List Frame
  /-- The modules placed so far, the last one first. -/
  placed : List Module

/-- What one move of the walk leads to. -/
inductive Move (g : Graph) where
  | next (w : Walk g)
  /-- Every module that the sink needs is placed. -/
  | done (order : List Module)
  | stuck (fault : WalkFault)

namespace Walk

variable {g : Graph}

/-- The walk before its first move. -/
def fresh (g : Graph) : Walk g := ⟨.none g, [], []⟩

/-- Enters a module: it is checked for its main input, marked, and put at the end of the path. -/
def enter (w : Walk g) (id : ModuleId) : Move g :=
  match g.get? id with
  | none => .stuck (.notMember id)
  | some m =>
    if m.isStarved then .stuck (.unconnected m.name)
    else .next ⟨w.marks.set id .entered, ⟨id, m, m.producers⟩ :: w.path, w.placed⟩

/-- Runs into a module that is on the path. -/
def meet (g : Graph) (id : ModuleId) : Move g :=
  match g.get? id with
  | none => .stuck (.notMember id)
  | some m => .stuck (.cycle id m.name)

/-- One move.  The frame at the end of the path either has no producer left and is placed, or is
moved on by one producer. -/
def step (w : Walk g) : Move g :=
  match w.path with
  | [] => .done w.placed.reverse
  | ⟨id, m, []⟩ :: path => .next ⟨w.marks.set id .placed, path, m :: w.placed⟩
  | ⟨id, m, producer :: pending⟩ :: path =>
    match w.marks.get producer with
    | some .placed => .next ⟨w.marks, ⟨id, m, pending⟩ :: path, w.placed⟩
    | some .entered => meet g producer
    | none => enter ⟨w.marks, ⟨id, m, pending⟩ :: path, w.placed⟩ producer

/-! ## The walk ends -/

/-- The moves that entering a module brings: one for it and one for each bound slot. -/
def cost (g : Graph) (id : ModuleId) : Nat :=
  match g.get? id with
  | some m => 1 + m.producers.length
  | none => 0

/-- The moves that modules without a mark can bring, over the first `n` handles. -/
def unvisited (marks : Marks g) : Nat → Nat
  | 0 => 0
  | n + 1 => unvisited marks n + if marks.get ⟨n⟩ = none then cost g ⟨n⟩ else 0

/-- The moves that the frames of a path still take. -/
def pathCost (path : List Frame) : Nat := path.foldr (1 + ·.pending.length + ·) 0

/-- An upper bound of the moves still ahead. -/
def remaining (w : Walk g) : Nat := unvisited w.marks g.arena.size + pathCost w.path

theorem unvisited_congr {marks other : Marks g} {n : Nat}
    (h : ∀ k < n, marks.get ⟨k⟩ = other.get ⟨k⟩) : unvisited marks n = unvisited other n := by
  induction n with
  | zero => rfl
  | succ n ih => rw [unvisited, unvisited, ih fun k hk => h k (by omega), h n (by omega)]

theorem unvisited_set_le (marks : Marks g) (id : ModuleId) (mark : Mark) (n : Nat) :
    unvisited (marks.set id mark) n ≤ unvisited marks n := by
  induction n with
  | zero => exact Nat.le_refl 0
  | succ n ih =>
    rw [unvisited, unvisited, Marks.get_set]
    by_cases h : id = ⟨n⟩ ∧ id.index < g.arena.size
    · rw [if_pos h, if_neg (by simp)]
      omega
    · rw [if_neg h]
      omega

/-- Marking a module that has no mark takes its moves away. -/
theorem unvisited_set_add (marks : Marks g) (id : ModuleId) (mark : Mark) (n : Nat)
    (hid : id.index < n) (hsize : id.index < g.arena.size) (hmark : marks.get id = none) :
    unvisited (marks.set id mark) n + cost g id = unvisited marks n := by
  induction n with
  | zero => omega
  | succ n ih =>
    rw [unvisited, unvisited]
    by_cases h : id = ⟨n⟩
    · subst h
      have below : unvisited (marks.set ⟨n⟩ mark) n = unvisited marks n :=
        unvisited_congr fun k hk => by
          rw [Marks.get_set, if_neg (by simp only [ModuleId.mk.injEq]; omega)]
      have here : (marks.set ⟨n⟩ mark).get ⟨n⟩ = some mark := by
        rw [Marks.get_set, if_pos ⟨rfl, hsize⟩]
      simp [below, here, hmark]
    · have hne : id.index ≠ n := fun hn => h (by rw [← hn])
      have here : (marks.set id mark).get ⟨n⟩ = marks.get ⟨n⟩ := by
        rw [Marks.get_set, if_neg fun hn => h hn.1]
      have := ih (by omega)
      rw [here]
      omega

/-- A module lies inside the arena. -/
theorem index_lt_of_get? {id : ModuleId} {m : Module} (h : g.get? id = some m) :
    id.index < g.arena.size := by
  rw [Graph.get?] at h
  by_cases hid : id.index < g.arena.size
  · exact hid
  · simp [hid] at h

/-- **Every move brings the end nearer.** -/
theorem remaining_lt_of_step {w v : Walk g} (h : w.step = .next v) : v.remaining < w.remaining := by
  unfold step at h
  split at h
  · cases h
  · rename_i id m path hpath
    cases h
    have := unvisited_set_le w.marks id .placed g.arena.size
    simp only [remaining, hpath, pathCost, List.foldr_cons, List.length_nil]
    omega
  · rename_i id m producer pending path hpath
    split at h
    · cases h
      simp only [remaining, hpath, pathCost, List.foldr_cons, List.length_cons]
      omega
    · unfold meet at h
      split at h <;> cases h
    · rename_i hmark
      unfold enter at h
      split at h
      · cases h
      · rename_i p hp
        split at h
        · cases h
        · cases h
          have hsize := index_lt_of_get? hp
          have := unvisited_set_add w.marks producer .entered g.arena.size hsize hsize hmark
          have hcost : cost g producer = 1 + p.producers.length := by rw [cost, hp]
          simp only [remaining, hpath, pathCost, List.foldr_cons, List.length_cons]
          omega

/-- The rest of the walk: the modules in their order, or why there is none. -/
def run (w : Walk g) : Except WalkFault (List Module) :=
  match _h : w.step with
  | .next v => v.run
  | .done order => .ok order
  | .stuck fault => .error fault
termination_by w.remaining
decreasing_by exact remaining_lt_of_step (by assumption)

end Walk

/-- **The modules that the sink needs**, every producer before its consumers and the sink last. -/
def Graph.scheduled (g : Graph) : Except WalkFault (List Module) :=
  match (Walk.fresh g).enter .sink with
  | .next w => w.run
  | .done order => .ok order
  | .stuck fault => .error fault

end Patchbay
