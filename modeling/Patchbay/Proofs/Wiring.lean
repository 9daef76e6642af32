import Patchbay.Proofs.Dataflow
import Patchbay.Proofs.Tiling
import Mathlib.Data.List.ReduceOption

/-!
# Who reads what from where

The statements around a fragment are chosen from the order of the modules and from the layout alone.
This file says what the choice amounts to, for a module whose turn has come: its producers have had
their turn, its consumers have not, an output that has to be read back is kept, and the cells it
drives are parameter cells of its consumers.

* `placements_eq_of_cell`, `exists_placement_of_cell` — a cell lies in the range of one module.
* `mem_fanOutCells_iff` — the cells that a module drives.
* `length_entries` — every cell has an initial value.
* `Turn` — **a module takes its turn**: the modules that have run, it, and those that will.
* `Turn.exists_producer`, `Turn.mem_rest_of_consumer` — who has run by then.
* `Turn.buffered_of_producer` — a main input that is not in the registers is in a kept output.
-/

namespace Patchbay

variable {modules : List Module}

/-! ## Ranges -/

/-- A cell lies in one range only. -/
lemma placements_eq_of_cell {m m' : Module} {n n' : Node} {k : Nat}
    (h : (m, n) ∈ placements modules) (h' : (m', n') ∈ placements modules)
    (hk : n.start ≤ k ∧ k < n.stop) (hk' : n'.start ≤ k ∧ k < n'.stop) : (m', n') = (m, n) := by
  rcases List.append_of_mem h with ⟨before, after, hsplit⟩
  have hstart := start_eq_span hsplit
  rw [hsplit, List.mem_append, List.mem_cons] at h'
  rcases h' with hbefore | heq | hafter
  · have := stop_le_span hsplit hbefore
    omega
  · exact heq
  · have := stop_le_start hsplit hafter
    omega

/-- Every cell lies in the range of a module. -/
lemma exists_placement_of_cell {k : Nat} :
    ∀ {first second : List (Module × Node)}, placements modules = first ++ second →
      k < span first → ∃ m n, (m, n) ∈ placements modules ∧ n.start ≤ k ∧ k < n.stop := by
  intro first
  induction first using List.reverseRecOn with
  | nil =>
      intro second _ hk
      simp at hk
  | append_singleton first x ih =>
      intro second hsplit hk
      rw [List.append_assoc, List.singleton_append] at hsplit
      rcases x with ⟨m, n⟩
      have hstart := start_eq_span hsplit
      by_cases hfirst : k < span first
      · exact ih hsplit hfirst
      · refine ⟨m, n, by simp [hsplit], by omega, ?_⟩
        simp only [span_append, span_cons, span_nil] at hk
        rw [Node.stop]
        omega

lemma stop_eq_of_mem {m : Module} {n : Node} (h : (m, n) ∈ placements modules) :
    n.stop = n.start + m.definition.ownCount + n.outputCount := by
  rw [eq_ofModule_of_mem h]
  simp only [Node.stop, Node.count, Node.ofModule, Definition.ownCount]
  omega

lemma outChannels_eq_of_mem {m : Module} {n : Node} (h : (m, n) ∈ placements modules) :
    n.outChannels = m.outChannels.toNat := by
  rw [eq_ofModule_of_mem h]
  rfl

lemma outputCount_of_buffered {m : Module} {n : Node} (h : (m, n) ∈ placements modules)
    (hn : n.buffered = true) : n.outputCount = m.outChannels.toNat := by
  rw [Node.outputCount, if_pos hn, outChannels_eq_of_mem h]

lemma outputCell?_of_buffered {m : Module} {n : Node} (h : (m, n) ∈ placements modules)
    (hn : n.buffered = true) : n.outputCell? = some (n.start + m.definition.ownCount) := by
  rw [Node.outputCell?, if_pos hn, eq_ofModule_of_mem h, Definition.ownCount, ← Nat.add_assoc]
  rfl

lemma buffered_iff_of_mem {m : Module} {n : Node} (h : (m, n) ∈ placements modules) :
    n.buffered = true ↔ m.id ∈ readBack none modules := by
  rw [eq_ofModule_of_mem h]
  simp [Node.ofModule]

lemma mem_modules_of_mem {m : Module} {n : Node} (h : (m, n) ∈ placements modules) :
    m ∈ modules := by
  rw [← map_fst_placements modules]
  exact List.mem_map_of_mem h

/-! ## Driven cells -/

/-- The parameter cells that a producer drives. -/
def fanOutCells (placed : List (Module × Node)) (id : ModuleId) : List Nat :=
  ((allDrivenCells placed).filter (·.1 = id)).map (·.2)

lemma fanOutStatements_eq (placed : List (Module × Node)) (m : Module) (n : Node) :
    fanOutStatements (allDrivenCells placed) m n =
      (fanOutCells placed m.id).map fun cell => .modulate (distance cell n.stop) := by
  rw [fanOutStatements, fanOutCells, List.map_map]
  rfl

lemma mem_drivenCells_iff {m : Module} {n : Node} {p : ModuleId} {cell : Nat} :
    (p, cell) ∈ drivenCells m n ↔
      p ≠ m.id ∧ ∃ j q, m.params[j]? = some q ∧ q.binding = some p ∧ cell = n.start + j := by
  simp only [drivenCells, List.mem_filter, List.reduceOption_mem_iff, List.mem_mapIdx,
    Node.paramCell, decide_eq_true_eq]
  constructor
  · rintro ⟨⟨j, hj, heq⟩, hp⟩
    rcases Option.map_eq_some_iff.mp heq with ⟨producer, hbinding, hpair⟩
    cases hpair
    exact ⟨hp, j, m.params[j], List.getElem?_eq_getElem hj, hbinding, rfl⟩
  · rintro ⟨hp, j, q, hq, hbinding, rfl⟩
    rcases List.getElem?_eq_some_iff.mp hq with ⟨hj, rfl⟩
    exact ⟨⟨j, hj, by rw [hbinding]; rfl⟩, hp⟩

lemma mem_fanOutCells_iff {placed : List (Module × Node)} {id : ModuleId} {cell : Nat} :
    cell ∈ fanOutCells placed id ↔ ∃ m n j q, (m, n) ∈ placed ∧ id ≠ m.id ∧
      m.params[j]? = some q ∧ q.binding = some id ∧ cell = n.start + j := by
  simp only [fanOutCells, allDrivenCells, List.mem_map, List.mem_filter, List.mem_flatMap,
    Prod.exists, decide_eq_true_eq]
  constructor
  · rintro ⟨p, c, ⟨⟨m, n, hplaced, hdriven⟩, rfl⟩, rfl⟩
    rcases mem_drivenCells_iff.mp hdriven with ⟨hne, j, q, hq, hbinding, hcell⟩
    exact ⟨m, n, j, q, hplaced, hne, hq, hbinding, hcell⟩
  · rintro ⟨m, n, j, q, hplaced, hne, hq, hbinding, hcell⟩
    exact ⟨id, cell,
      ⟨⟨m, n, hplaced, mem_drivenCells_iff.mpr ⟨hne, j, q, hq, hbinding, hcell⟩⟩, rfl⟩, rfl⟩

/-! ## Initial values -/

/-- The initial values of the ranges from a place on. -/
def entriesFrom (s : Schedule) (place : Nat) (placed : List (Module × Node)) : List String :=
  (placed.zipIdx place).flatMap fun ((m, n), k) => moduleEntries s k m n

lemma entries_eq (modules : List Module) (s : Schedule) :
    entries modules s (.ofModules modules) = entriesFrom s 0 (placements modules) := by
  rw [entries, entriesFrom, List.mapIdx_eq_zipIdx_map, List.flatMap_def]
  rfl

lemma length_moduleEntries (s : Schedule) (place : Nat) {m : Module} {n : Node}
    (h : m.params.length = n.paramCount) : (moduleEntries s place m n).length = n.count := by
  simp only [moduleEntries, List.length_append, List.length_map, List.length_replicate, h,
    Node.count]
  omega

lemma length_entriesFrom (s : Schedule) :
    ∀ (placed : List (Module × Node)) (place : Nat),
      (∀ x ∈ placed, x.1.params.length = x.2.paramCount) →
      (entriesFrom s place placed).length = span placed
  | [], _, _ => rfl
  | (m, n) :: placed, place, hplaced => by
      have ih := length_entriesFrom s placed (place + 1) fun x hx => hplaced x (by simp [hx])
      have hm := length_moduleEntries s place (hplaced (m, n) (by simp))
      rw [entriesFrom] at ih ⊢
      rw [List.zipIdx_cons, List.flatMap_cons, List.length_append, ih, hm, span_cons]

/-- A module that runs has the parameters that its definition names. -/
lemma params_length_of_mem {g : Graph} (hg : g.WellFormed) (hs : g.IsSchedule modules) {m : Module}
    {n : Node} (h : (m, n) ∈ placements modules) :
    m.params.length = m.definition.paramCount := by
  have hnames := (hg.fits _ _ (hs.member m (mem_modules_of_mem h))).names
  simpa [Definition.paramCount] using congrArg List.length hnames

/-- **There are as many initial values as cells.** -/
lemma length_entries {g : Graph} (hg : g.WellFormed) (hs : g.IsSchedule modules) (s : Schedule) :
    (entries modules s (.ofModules modules)).length = (Layout.ofModules modules).size := by
  rw [size_ofModules, entries_eq]
  refine length_entriesFrom s _ _ fun x hx => ?_
  rw [params_length_of_mem hg hs hx, eq_ofModule_of_mem hx]
  rfl

/-! ## Turns -/

lemma one_or_two {channels : UInt8} (hne : channels ≠ 0) (hle : channels ≤ 2) :
    channels = 1 ∨ channels = 2 := by
  simp only [ne_eq, ← UInt8.toNat_inj, UInt8.le_iff_toNat_le, UInt8.toNat_ofNat] at *
  omega

/-- **A module takes its turn**: `done` have run, then comes `m` with its range `n`, and `rest` will
run. -/
structure Turn (g : Graph) (modules : List Module) (done : List (Module × Node)) (m : Module)
    (n : Node) (rest : List (Module × Node)) : Prop where
  wellFormed : g.WellFormed
  schedule : g.IsSchedule modules
  split : placements modules = done ++ (m, n) :: rest

namespace Turn

variable {g : Graph} {done rest : List (Module × Node)} {m m' : Module} {n n' : Node}
  {p : ModuleId}

lemma modules_eq (h : Turn g modules done m n rest) :
    modules = done.map (·.1) ++ m :: rest.map (·.1) := by
  conv_lhs => rw [← map_fst_placements modules, h.split]
  simp

lemma placed (h : Turn g modules done m n rest) : (m, n) ∈ placements modules := by
  simp [h.split]

lemma placed_of_done (h : Turn g modules done m n rest) (hd : (m', n') ∈ done) :
    (m', n') ∈ placements modules := by
  simp [h.split, hd]

lemma placed_of_rest (h : Turn g modules done m n rest) (hr : (m', n') ∈ rest) :
    (m', n') ∈ placements modules := by
  simp [h.split, hr]

lemma member (h : Turn g modules done m n rest) (hp : (m', n') ∈ placements modules) :
    g.get? m'.id = some m' :=
  h.schedule.member m' (mem_modules_of_mem hp)

lemma start_eq (h : Turn g modules done m n rest) : n.start = span done := start_eq_span h.split

lemma ids_nodup (h : Turn g modules done m n rest) :
    ((placements modules).map (·.1.id)).Nodup := by
  rw [map_id_placements]
  exact h.schedule.nodup

lemma id_ne_of_done (h : Turn g modules done m n rest) (hd : (m', n') ∈ done) : m'.id ≠ m.id := by
  have hids := h.ids_nodup
  rw [h.split, List.map_append, List.nodup_append] at hids
  exact hids.2.2 _ (List.mem_map_of_mem hd) _ (by simp)

lemma id_ne_of_rest (h : Turn g modules done m n rest) (hr : (m', n') ∈ rest) : m'.id ≠ m.id := by
  have hids := h.ids_nodup
  rw [h.split, List.map_append, List.nodup_append, List.map_cons, List.nodup_cons] at hids
  exact fun heq => hids.2.1.1 (heq ▸ List.mem_map_of_mem hr)

/-- The producers of the module have run. -/
lemma exists_producer (h : Turn g modules done m n rest) (hp : p ∈ m.producers) :
    ∃ q nq, (q, nq) ∈ done ∧ q.id = p := by
  have hfirst := h.schedule.producersFirst _ _ _ h.modules_eq p hp
  simpa using hfirst

/-- Its consumers have not. -/
lemma mem_rest_of_consumer (h : Turn g modules done m n rest) (hm' : (m', n') ∈ placements modules)
    (hp : m.id ∈ m'.producers) : (m', n') ∈ rest := by
  rw [h.split, List.mem_append, List.mem_cons] at hm'
  rcases hm' with hd | heq | hr
  · -- a consumer before it would have it among what has run before that
    exfalso
    rcases List.append_of_mem hd with ⟨before, after, rfl⟩
    have hturn : Turn g modules before m' n' (after ++ (m, n) :: rest) :=
      ⟨h.wellFormed, h.schedule, by rw [h.split, List.append_assoc, List.cons_append]⟩
    rcases hturn.exists_producer hp with ⟨q, nq, hq, hid⟩
    exact h.id_ne_of_done (List.mem_append_left _ hq) hid
  · exfalso
    cases heq
    rcases h.exists_producer hp with ⟨q, nq, hq, hid⟩
    exact h.id_ne_of_done hq hid
  · exact hr

/-! ### Channels -/

lemma params_length (h : Turn g modules done m n rest) (hm' : (m', n') ∈ placements modules) :
    m'.params.length = m'.definition.paramCount :=
  params_length_of_mem h.wellFormed h.schedule hm'

/-- What a main input is bound to gives as many channels as it takes, and they are one or two. -/
lemma channels_of_mainInput (h : Turn g modules done m n rest) (hinput : m.mainInput = some m'.id)
    (hm' : (m', n') ∈ placements modules) :
    m'.outChannels = m.inChannels ∧ (m.inChannels = 1 ∨ m.inChannels = 2) := by
  have hfits := h.wellFormed.fits _ _ (h.member h.placed)
  rcases hfits.mainInput _ hinput with ⟨hin, hout⟩
  rcases Graph.outputs_eq_some_iff.mp hout with ⟨q, hq, hcount⟩
  cases hq.symm.trans (h.member hm')
  have hle := (Definition.flaw?_eq_none_iff.mp hfits.flawless).1.1
  exact ⟨hcount, one_or_two hin hle⟩

lemma channels_of_binding (h : Turn g modules done m n rest) (hm' : (m', n') ∈ placements modules)
    {q : Param} (hq : q ∈ m'.params) (hbinding : q.binding = some m.id) : m.outChannels = 1 := by
  have hout := (h.wellFormed.fits _ _ (h.member hm')).binding q hq _ hbinding
  rcases Graph.outputs_eq_some_iff.mp hout with ⟨m'', hm'', hcount⟩
  cases hm''.symm.trans (h.member h.placed)
  exact hcount

/-- An output is kept only if somebody reads it, so it has a channel. -/
lemma channels_of_buffered (h : Turn g modules done m n rest) (hn : n.buffered = true) :
    n.outChannels = 1 ∨ n.outChannels = 2 := by
  rcases mem_readBack_iff.mp ((buffered_iff_of_mem h.placed).mp hn) with
    ⟨before, reader, after, hsplit, hp, -⟩
  have hreader := h.schedule.member reader (by simp [hsplit])
  rcases h.wellFormed.exists_of_mem_producers hreader hp with ⟨q, hq, hout⟩
  cases hq.symm.trans (h.member h.placed)
  have hflawless := (h.wellFormed.fits _ _ (h.member h.placed)).flawless
  have hle := (Definition.flaw?_eq_none_iff.mp hflawless).1.2
  rw [outChannels_eq_of_mem h.placed]
  rcases one_or_two hout hle with hone | htwo
  · exact Or.inl (by rw [hone]; rfl)
  · exact Or.inr (by rw [htwo]; rfl)

/-! ### Cells -/

/-- A main input that the registers do not carry is in a kept output. -/
lemma buffered_of_producer (h : Turn g modules done m n rest) (hp : m'.id ∈ m.producers)
    (hlast : lastId none (done.map (·.1)) ≠ some m'.id) (hd : (m', n') ∈ done) :
    n'.buffered = true :=
  (buffered_iff_of_mem (h.placed_of_done hd)).mpr
    (mem_readBack_iff.mpr ⟨_, _, _, h.modules_eq, hp, hlast⟩)

/-- The cells that a module drives lie behind its range. -/
lemma fanOut_bounds (h : Turn g modules done m n rest) {cell : Nat}
    (hcell : cell ∈ fanOutCells (placements modules) m.id) :
    n.stop ≤ cell ∧ cell < span (placements modules) := by
  rcases mem_fanOutCells_iff.mp hcell with ⟨m', n', j, q, hm', -, hq, hbinding, rfl⟩
  have hproducer : m.id ∈ m'.producers :=
    Module.mem_producers_iff.mpr (Or.inr ⟨q, List.mem_of_getElem? hq, hbinding⟩)
  have hrest := h.mem_rest_of_consumer hm' hproducer
  have hj : j < m'.definition.paramCount := by
    rw [← h.params_length hm']
    exact (List.getElem?_eq_some_iff.mp hq).1
  have hlow := stop_le_start h.split hrest
  have hstop := stop_le_size hm'
  have hn' := stop_eq_of_mem hm'
  have hown : m'.definition.paramCount ≤ m'.definition.ownCount := Nat.le_add_right _ _
  omega

/-- Of the own cells of a module that will run, those of the parameters bound to `m` are driven. -/
lemma mem_fanOutCells_of_rest (h : Turn g modules done m n rest) (hr : (m', n') ∈ rest) {j : Nat}
    (hj : j < m'.definition.ownCount) :
    n'.start + j ∈ fanOutCells (placements modules) m.id ↔
      ∃ q, m'.params[j]? = some q ∧ q.binding = some m.id := by
  have hm' := h.placed_of_rest hr
  rw [mem_fanOutCells_iff]
  constructor
  · rintro ⟨m'', n'', j', q, hm'', -, hq, hbinding, hcell⟩
    have hj' : j' < m''.definition.paramCount := by
      rw [← h.params_length hm'']
      exact (List.getElem?_eq_some_iff.mp hq).1
    have hstop' := stop_eq_of_mem hm'
    have hstop'' := stop_eq_of_mem hm''
    have hown : m''.definition.paramCount ≤ m''.definition.ownCount := Nat.le_add_right _ _
    cases placements_eq_of_cell hm' hm'' (k := n'.start + j) (by omega) (by omega)
    cases Nat.add_left_cancel hcell
    exact ⟨q, hq, hbinding⟩
  · rintro ⟨q, hq, hbinding⟩
    exact ⟨m', n', j, q, hm', (h.id_ne_of_rest hr).symm, hq, hbinding, rfl⟩

end Turn

end Patchbay
