import Patchbay.Proofs.Buffering
import Mathlib.Algebra.Ring.Nat

/-!
# What every cell is for

The ranges of the modules lie end to end and fill the state array, and inside a range every cell has
one use.  The layout never says so in one place: the start of a range is a running sum, and the
cells of the parameters, of the workspace and of the output are found by three functions.

* `Role`, `Node.cell?` — the uses that a range has for its cells, and the cell of each of them.
* `Node.role?` — the use of a cell, read off the lengths of the three parts of a range.
* `Node.cell?_eq_some_iff` — **the two are inverse to each other**, so that within a range every
  cell has one use.
* `Graph.layout_tiles` — **the layout tiles the state array.**
-/

namespace Patchbay

/-! ## The uses of a cell -/

/-- What a cell is to the module in whose range it lies. -/
inductive Role where
  | param (index : Nat)
  | workspace (index : Nat)
  | output (channel : Nat)
  deriving DecidableEq, Repr

namespace Node

/-- The cell that a range has for a use, if it has one. -/
def cell? (n : Node) : Role → Option Nat
  | .param index => if index < n.paramCount then some (n.paramCell index) else none
  | .workspace index => if index < n.workspaceSize then some (n.workspaceCell + index) else none
  | .output channel => if channel < n.outChannels then n.outputCell?.map (· + channel) else none

/-- The use that a range has for a cell: the parameters come first, then the workspace and then the
output, of which there may be none. -/
def role? (n : Node) (cell : Nat) : Option Role :=
  if cell < n.start then none
  else if cell < n.start + n.paramCount then some (.param (cell - n.start))
  else if cell < n.start + n.paramCount + n.workspaceSize then
    some (.workspace (cell - (n.start + n.paramCount)))
  else if cell < n.stop then
    some (.output (cell - (n.start + n.paramCount + n.workspaceSize)))
  else none

/-- **The cell of a use and the use of a cell** are inverse to each other. -/
theorem cell?_eq_some_iff {n : Node} {role : Role} {cell : Nat} :
    n.cell? role = some cell ↔ n.role? cell = some role := by
  cases role with
  | param index =>
      rw [cell?, role?, paramCell]
      split_ifs <;> simp <;> omega
  | workspace index =>
      rw [cell?, role?, workspaceCell]
      split_ifs <;> simp <;> omega
  | output channel =>
      -- without a kept output the range stops where the workspace does
      rw [cell?, role?, outputCell?, stop, count, outputCount]
      cases n.buffered with
      | false =>
          simp only [Bool.false_eq_true, if_false, Option.map_none]
          split_ifs <;> simp <;> omega
      | true =>
          simp only [if_true, Option.map_some]
          split_ifs <;> simp <;> omega

/-- A cell has a use exactly if it lies in the range. -/
lemma exists_role?_iff {n : Node} {cell : Nat} :
    (∃ role, n.role? cell = some role) ↔ n.start ≤ cell ∧ cell < n.stop := by
  have hstop : n.stop = n.start + n.paramCount + n.workspaceSize + n.outputCount := by
    simp only [stop, count, Nat.add_assoc]
  rw [role?]
  split_ifs <;> simp <;> omega

end Node

/-! ## Ranges at their places -/

section

variable {modules : List Module} {id : ModuleId} {n : Node}

/-- The range that the layout finds for a handle is the placement of its module. -/
lemma layout_get?_eq_some_iff (hnodup : (modules.map (·.id)).Nodup) :
    (Layout.ofModules modules).get? id = some n ↔
      ∃ m, (m, n) ∈ placements modules ∧ m.id = id := by
  constructor
  · intro hget
    have howner : n.owner = id := by simpa using List.find?_some hget
    have hn := List.mem_of_find?_eq_some hget
    rw [← map_snd_placements, List.mem_map] at hn
    obtain ⟨⟨m, n'⟩, hplaced, rfl⟩ := hn
    exact ⟨m, hplaced, (owner_eq_of_mem hplaced).symm.trans howner⟩
  · rintro ⟨m, hplaced, rfl⟩
    exact get?_ofModules hnodup hplaced

/-- A range starts where the one before it stops. -/
lemma start_of_next {k : Nat} {n' : Node} (hn : (Layout.ofModules modules).nodes[k]? = some n)
    (hn' : (Layout.ofModules modules).nodes[k + 1]? = some n') : n'.start = n.stop := by
  rw [← map_snd_placements, List.getElem?_map, Option.map_eq_some_iff] at hn hn'
  obtain ⟨⟨m, _⟩, hplace, rfl⟩ := hn
  obtain ⟨⟨m', _⟩, hplace', rfl⟩ := hn'
  have hstart := start_eq_span (placements_split hplace)
  have hstart' := start_eq_span (placements_split hplace')
  rw [List.take_add_one, hplace, span_append, ← hstart] at hstart'
  exact hstart'

/-- **Every cell of the state array belongs to one module and has one use there.** -/
theorem existsUnique_role (hnodup : (modules.map (·.id)).Nodup) {cell : Nat}
    (hcell : cell < (Layout.ofModules modules).size) :
    ∃! owned : ModuleId × Role, ∃ n,
      (Layout.ofModules modules).get? owned.1 = some n ∧ n.cell? owned.2 = some cell := by
  rw [size_ofModules] at hcell
  obtain ⟨m, n, hplaced, hlow, hhigh⟩ :=
    exists_placement_of_cell (List.append_nil _).symm hcell
  obtain ⟨role, hrole⟩ := Node.exists_role?_iff.mpr ⟨hlow, hhigh⟩
  refine ⟨(m.id, role), ⟨n, get?_ofModules hnodup hplaced, Node.cell?_eq_some_iff.mpr hrole⟩, ?_⟩
  rintro ⟨id', role'⟩ ⟨n', hget, hcell'⟩
  obtain ⟨m', hplaced', rfl⟩ := (layout_get?_eq_some_iff hnodup).mp hget
  have hrole' := Node.cell?_eq_some_iff.mp hcell'
  -- two ranges with a cell in common are one
  cases placements_eq_of_cell hplaced hplaced' ⟨hlow, hhigh⟩
    (Node.exists_role?_iff.mp ⟨role', hrole'⟩)
  cases hrole.symm.trans hrole'
  rfl

/-- The cells that ranges have for their uses lie in the state array. -/
lemma lt_size_of_cell? (hnodup : (modules.map (·.id)).Nodup) {role : Role} {cell : Nat}
    (hget : (Layout.ofModules modules).get? id = some n) (hcell : n.cell? role = some cell) :
    cell < (Layout.ofModules modules).size := by
  obtain ⟨m, hplaced, -⟩ := (layout_get?_eq_some_iff hnodup).mp hget
  have hstop := stop_le_size hplaced
  have hrange := Node.exists_role?_iff.mp ⟨role, Node.cell?_eq_some_iff.mp hcell⟩
  rw [size_ofModules]
  omega

end

namespace Graph

variable {g : Graph} {modules : List Module}

/-- The sink runs, so that there is a range. -/
lemma IsSchedule.placements_ne_nil (hs : g.IsSchedule modules) : placements modules ≠ [] := by
  intro hnil
  have hlast := hs.last
  rw [← map_id_placements, hnil] at hlast
  cases hlast

/-- The first range starts at 0. -/
lemma IsSchedule.exists_first (hs : g.IsSchedule modules) :
    ∃ n, (Layout.ofModules modules).nodes[0]? = some n ∧ n.start = 0 := by
  obtain ⟨⟨m, n⟩, rest, hsplit⟩ := List.exists_cons_of_ne_nil hs.placements_ne_nil
  have hstart : n.start = span [] := start_eq_span hsplit
  refine ⟨n, ?_, hstart⟩
  rw [← map_snd_placements, hsplit]
  rfl

/-- The last range stops at the end of the state array. -/
lemma IsSchedule.exists_last (hs : g.IsSchedule modules) :
    ∃ n, (Layout.ofModules modules).nodes.getLast? = some n ∧
      n.stop = (Layout.ofModules modules).size := by
  obtain hnil | ⟨done, ⟨m, n⟩, hsplit⟩ := List.eq_nil_or_concat (placements modules)
  · exact absurd hnil hs.placements_ne_nil
  · rw [List.concat_eq_append] at hsplit
    refine ⟨n, ?_, ?_⟩
    · rw [← map_snd_placements, hsplit, List.map_append]
      exact List.getLast?_concat
    · rw [size_ofModules, hsplit, Node.stop, start_eq_span hsplit]
      simp

/-- How many cells the module of a range needs: one for each parameter, those of its workspace, and
one for each channel of an output that is kept. -/
def footprint (g : Graph) (n : Node) : Nat :=
  match g.get? n.owner with
  | none => 0
  | some m =>
    m.params.length + m.definition.workspaceSize.toNat +
      if n.buffered then m.outChannels.toNat else 0

lemma count_eq_footprint (hg : g.WellFormed) (hs : g.IsSchedule modules) {m : Module} {n : Node}
    (hplaced : (m, n) ∈ placements modules) : n.count = g.footprint n := by
  have hm := hs.member m (mem_modules_of_mem hplaced)
  rw [footprint, owner_eq_of_mem hplaced, hm]
  simp only [params_length_of_mem hg hs hplaced]
  rw [eq_ofModule_of_mem hplaced]
  rfl

/-- The state array has as many cells as the modules that run need. -/
lemma size_eq_sum_footprint (hg : g.WellFormed) (hs : g.IsSchedule modules) :
    (Layout.ofModules modules).size =
      ((Layout.ofModules modules).nodes.map g.footprint).sum := by
  have hcounts : (Layout.ofModules modules).nodes.map Node.count =
      (Layout.ofModules modules).nodes.map g.footprint := by
    refine List.map_congr_left fun n hn => ?_
    rw [← map_snd_placements, List.mem_map] at hn
    obtain ⟨⟨m, n'⟩, hplaced, rfl⟩ := hn
    exact count_eq_footprint hg hs hplaced
  rw [← hcounts, Layout.size, List.sum_eq_foldr, List.foldr_map]

/-- **The layout tiles the state array.**  In a graph that compiles:

* The ranges are those of the modules that run, in their order.  The first one starts at 0, each of
  the others where the one before it stops, and the last one stops at the end of the array.
* The array has one cell for each parameter, for each workspace cell and for each channel of a kept
  output of the modules that run.
* Every cell of the array belongs to one module and has one use there, and every cell that a range
  has a use for lies in the array.
* The range of a module that runs is found by its handle, at the place of the module in the order;
  its parts are as long as the module needs.  For other handles none is found. -/
theorem layout_tiles (hg : g.Reachable) {patch : Patch} (hpatch : g.compile = .ok patch) :
    (patch.layout.nodes.map (·.owner) = patch.schedule.order ∧
      (∃ n, patch.layout.nodes[0]? = some n ∧ n.start = 0) ∧
      (∀ k n n', patch.layout.nodes[k]? = some n → patch.layout.nodes[k + 1]? = some n' →
        n'.start = n.stop) ∧
      ∃ n, patch.layout.nodes.getLast? = some n ∧ n.stop = patch.stateSize) ∧
    patch.stateSize = (patch.layout.nodes.map g.footprint).sum ∧
    ((∀ cell < patch.stateSize, ∃! owned : ModuleId × Role, ∃ n,
        patch.layout.get? owned.1 = some n ∧ n.cell? owned.2 = some cell) ∧
      ∀ id n role cell, patch.layout.get? id = some n → n.cell? role = some cell →
        cell < patch.stateSize) ∧
    (∀ id ∈ patch.schedule.order, ∃ k n m, patch.schedule.position? id = some k ∧
      patch.layout.nodes[k]? = some n ∧ patch.layout.get? id = some n ∧
      g.get? id = some m ∧ n.paramCount = m.params.length ∧
      n.workspaceSize = m.definition.workspaceSize.toNat ∧ n.outChannels = m.outChannels.toNat) ∧
    ∀ id, id ∉ patch.schedule.order → patch.layout.get? id = none := by
  have hwf := hg.wellFormed
  obtain ⟨modules, hmodules, rfl⟩ := compile_eq_ok_iff.mp hpatch
  have hs := (scheduled_spec hwf.id_eq).1 modules hmodules
  have hnodup := hs.nodup
  refine ⟨⟨Layout.map_owner_placeFrom _ _ _, hs.exists_first,
      fun k n n' hn hn' => start_of_next hn hn', hs.exists_last⟩,
    size_eq_sum_footprint hwf hs,
    ⟨fun cell hcell => existsUnique_role hnodup hcell,
      fun id n role cell hget hcell => lt_size_of_cell? hnodup hget hcell⟩, ?_, ?_⟩
  · intro id hid
    obtain ⟨k, hk⟩ := List.mem_iff_getElem?.mp hid
    obtain ⟨done, m, n, rest, turn, -, rfl, hn⟩ := hs.exists_turn hwf hk
    refine ⟨k, n, m, (Schedule.position?_eq_some_iff hnodup).mpr hk, hn,
      get?_ofModules hnodup turn.placed, turn.member turn.placed, ?_, ?_, ?_⟩
    · rw [turn.params_length turn.placed, eq_ofModule_of_mem turn.placed]
      rfl
    · rw [eq_ofModule_of_mem turn.placed]
      rfl
    · exact outChannels_eq_of_mem turn.placed
  · intro id hid
    cases hget : (Layout.ofModules modules).get? id with
    | none => exact hget
    | some n =>
        obtain ⟨m, hplaced, rfl⟩ := (layout_get?_eq_some_iff hnodup).mp hget
        exact absurd (List.mem_map_of_mem (mem_modules_of_mem hplaced)) hid

/-- The state array of the demo patch has eight cells.  The fourth one is for the left channel of
the pan, and for nothing else. -/
theorem layout_tiles_demo :
    ∃ patch, demo.compile = .ok patch ∧ patch.layout.nodes = demoNodes ∧ patch.stateSize = 8 ∧
      (patch.layout.nodes.map demo.footprint).sum = 8 ∧
      (∃! owned : ModuleId × Role, ∃ n,
        patch.layout.get? owned.1 = some n ∧ n.cell? owned.2 = some 3) ∧
      ∃ n, patch.layout.get? ⟨2⟩ = some n ∧ n.cell? (.output 0) = some 3 := by
  obtain ⟨patch, hpatch, -, hnodes⟩ := exists_demo_layout
  obtain ⟨-, hsum, ⟨hcells, -⟩, -⟩ := layout_tiles demo_reachable hpatch
  have hsize : patch.stateSize = 8 := by
    rw [Patch.stateSize, Layout.size, hnodes]
    rfl
  refine ⟨patch, hpatch, hnodes, hsize, hsum.symm.trans hsize, hcells 3 (by omega), ?_⟩
  rw [Layout.get?, hnodes]
  exact ⟨_, rfl, rfl⟩

end Graph

end Patchbay
