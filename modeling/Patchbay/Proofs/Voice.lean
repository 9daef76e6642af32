import Patchbay.Proofs.Simulation

/-!
# A voice over any number of samples

The program of a compiled graph, run once per sample on a state array of the size of the patch, does
in every sample what the equations of the graph say.  It never reaches outside the array, and it
leaves the cursor behind the last cell.

* `Graph.Holds` — the own cells of the modules lie in the state array where the layout has them.
* `Graph.IsSchedule.sample` — one sample takes a machine that holds the cells of the last sample to
  one that holds those of this sample.
* `Graph.IsBlock` — the statements of one module around its fragment.
* `Graph.compile_correct` — **the compiler is correct.**
* `honours_perform` — every reaction of the right size is that of some host, so the contract asks
  for nothing that could not be.
-/

namespace Patchbay

variable {α σ : Type} {host : Host α σ} {g : Graph} {modules : List Module}
  {react : ModuleId → Reaction α} {before after : Memory α} {signals : Signals α}
  {s t : Machine α σ}

namespace Graph

/-- **The state array holds the own cells of all modules**, each at the start of its range. -/
structure Holds (g : Graph) (layout : Layout) (memory : Memory α) (s : Machine α σ) : Prop where
  length : s.cells.length = layout.size
  own : ∀ id m n, g.Live id → g.get? id = some m → layout.get? id = some n →
    s.own n.start m.definition = memory id

/-- The contracts of all fragments that are run. -/
def AllHonoured (g : Graph) (layout : Layout) (host : Host α σ) (react : ModuleId → Reaction α) :
    Prop :=
  ∀ id m n, g.Live id → g.get? id = some m → layout.get? id = some n →
    Honours host (react id) layout.size m n

/-- The placements, in terms of the graph and the layout. -/
lemma IsSchedule.mem_placements_iff (hs : g.IsSchedule modules) {m : Module} {n : Node} :
    (m, n) ∈ placements modules ↔
      g.Live m.id ∧ g.get? m.id = some m ∧ (Layout.ofModules modules).get? m.id = some n := by
  constructor
  · intro h
    have hm := mem_modules_of_mem h
    exact ⟨(hs.live_iff m.id).mp (List.mem_map_of_mem hm), hs.member m hm,
      get?_ofModules hs.nodup h⟩
  · rintro ⟨hlive, hm, hn⟩
    rcases List.mem_map.mp ((hs.live_iff m.id).mpr hlive) with ⟨m', hm', hid⟩
    have hmember := hs.member m' hm'
    rw [hid, hm] at hmember
    cases hmember
    exact mem_placements_of_get? hs.nodup hm' hn

/-! ## One sample -/

/-- At the start of a sample nothing has run, whatever the registers hold. -/
lemma Holds.midway (hg : g.WellFormed) (hs : g.IsSchedule modules)
    (h : g.Holds (Layout.ofModules modules) before s) :
    Midway before after signals [] (placements modules) s.rewind := by
  refine ⟨?_, rfl, by simp, by simp, ?_, by simp, by simp⟩
  · rw [List.nil_append, ← size_ofModules]
    exact h.length
  · intro m n hmem
    rcases hs.mem_placements_iff.mp hmem with ⟨hlive, hm, hn⟩
    have hown := h.own m.id m n hlive hm hn
    have hnames := congrArg List.length (hg.fits _ _ hm).names
    have hstop := stop_le_size hmem
    rw [← size_ofModules, ← h.length, stop_eq_of_mem hmem] at hstop
    have hlength : (before m.id).params.length = m.params.length := by
      rw [← hown]
      simp only [List.length_map, Machine.own, Machine.slice, List.length_take, List.length_drop,
        Definition.ownCount, Definition.paramCount] at *
      omega
    rw [List.map_nil, Module.driven_upTo_nil m _ hlength]
    exact hown

/-- The statements of all modules bring a sample to its end. -/
theorem IsSchedule.finish (hs : g.IsSchedule modules) (hg : g.WellFormed)
    (hhost : g.AllHonoured (Layout.ofModules modules) host react)
    (hsolves : g.Solves react before signals after)
    (h : g.Holds (Layout.ofModules modules) before s) :
    ∃ t, s.sample host (program modules (Layout.ofModules modules)) = some t ∧
      Midway before after signals (placements modules) [] t ∧
      ∀ m n, (m, n) ∈ placements modules → Activates host before signals m n
        (program modules (Layout.ofModules modules)) s.rewind := by
  have hcontract : ∀ m n, (m, n) ∈ placements modules →
      Honours host (react m.id) (span (placements modules)) m n := by
    intro m n hmem
    rcases hs.mem_placements_iff.mp hmem with ⟨hlive, hm, hn⟩
    rw [← size_ofModules]
    exact hhost m.id m n hlive hm hn
  exact Midway.run hg hs hsolves hcontract (List.nil_append _).symm (h.midway hg hs)

/-- **One sample.** -/
theorem IsSchedule.sample (hs : g.IsSchedule modules) (hg : g.WellFormed)
    (hhost : g.AllHonoured (Layout.ofModules modules) host react)
    (hsolves : g.Solves react before signals after)
    (h : g.Holds (Layout.ofModules modules) before s) :
    ∃ t, s.sample host (program modules (Layout.ofModules modules)) = some t ∧
      t.cursor = (Layout.ofModules modules).size ∧ g.Holds (Layout.ofModules modules) after t ∧
      (∀ m n, (m, n) ∈ placements modules → Activates host before signals m n
        (program modules (Layout.ofModules modules)) s.rewind) ∧
      (∀ m, g.get? .sink = some m → m.definition.code = "" →
        t.registers.take m.inChannels.toNat = m.inputSignal signals) := by
  rcases hs.finish hg hhost hsolves h with ⟨t, hrun, hend, hactivates⟩
  refine ⟨t, hrun, ?_, ⟨?_, ?_⟩, hactivates, ?_⟩
  · rw [size_ofModules, hend.cursor]
  · rw [size_ofModules, hend.length, List.append_nil]
  · intro id m n hlive hm hn
    cases hg.id_eq id m hm
    exact hend.finished m n (hs.mem_placements_iff.mpr ⟨hlive, hm, hn⟩)
  · intro m hm hcode
    -- the sink runs last
    have hlast := hs.last
    rw [← map_fst_placements modules, List.map_map, List.getLast?_map] at hlast
    rcases Option.map_eq_some_iff.mp hlast with ⟨⟨m', n⟩, hx, hid⟩
    have hm' := (hs.mem_placements_iff.mp (List.mem_of_getLast? hx)).2.1
    change m'.id = _ at hid
    rw [hid, hm] at hm'
    cases hm'
    exact hend.passed m n hx hcode

/-! ## Any number of samples -/

/-- The cells that are left by the samples one after the other. -/
def remember (react : ModuleId → Reaction α) (modules : List Module) (start : Memory α) :
    Nat → Memory α
  | 0 => start
  | k + 1 => (evaluate react (remember react modules start k) modules).memory

/-- The machine holds after every number of samples what they leave, by induction on the number. -/
lemma IsSchedule.samples (hs : g.IsSchedule modules) (hg : g.WellFormed)
    (hhost : g.AllHonoured (Layout.ofModules modules) host react)
    (h : g.Holds (Layout.ofModules modules) before s) (k : Nat) :
    ∃ t, s.samples host (program modules (Layout.ofModules modules)) k = some t ∧
      g.Holds (Layout.ofModules modules) (remember react modules before k) t := by
  induction k with
  | zero => exact ⟨s, rfl, h⟩
  | succ k ih =>
      rcases ih with ⟨t, hrun, hholds⟩
      rcases hs.sample hg hhost (hs.solves_evaluate _) hholds with ⟨t', hsample, -, hholds', -⟩
      exact ⟨t', (Machine.samples_succ hrun).trans hsample, hholds'⟩

/-! ## The text of the program -/

/-- **The statements of one module**: they load its main input, run its fragment, and then keep its
output and write it to the parameters that it drives. -/
def IsBlock (g : Graph) (layout : Layout) (id : ModuleId) (block : List Statement) : Prop :=
  ∃ m n first second, g.get? id = some m ∧ layout.get? id = some n ∧
    block = first ++ .fragment id m.definition :: second ∧
    (∀ x ∈ first, ∃ register offset, x = .load register offset) ∧
    (∀ x ∈ second, (∃ register, x = .store register) ∨ ∃ offset, x = .modulate offset)

lemma exists_eq_load_of_mem {layout : Layout} {previous : Option ModuleId} {m : Module} {n : Node}
    {x : Statement} (hx : x ∈ inputStatements layout previous m n) :
    ∃ register offset, x = .load register offset := by
  rw [inputStatements] at hx
  cases hinput : m.mainInput with
  | none => simp [hinput] at hx
  | some p =>
      simp only [hinput] at hx
      by_cases hprevious : previous = some p
      · simp [hprevious] at hx
      · rw [if_neg hprevious] at hx
        cases hcell : (layout.get? p).bind Node.outputCell? with
        | none => simp [hcell] at hx
        | some cell =>
            simp only [hcell, List.mem_cons] at hx
            rcases hx with rfl | hx
            · exact ⟨_, _, rfl⟩
            · split_ifs at hx
              · exact ⟨_, _, List.mem_singleton.mp hx⟩
              · simp at hx

lemma exists_eq_store_of_mem {n : Node} {x : Statement} (hx : x ∈ outputStatements n) :
    ∃ register, x = .store register := by
  rw [outputStatements] at hx
  cases hbuffered : n.buffered with
  | false => simp [hbuffered] at hx
  | true =>
      rw [hbuffered, if_pos rfl, List.mem_cons] at hx
      rcases hx with rfl | hx
      · exact ⟨_, rfl⟩
      · split_ifs at hx
        · exact ⟨_, List.mem_singleton.mp hx⟩
        · simp at hx

lemma isBlock_moduleStatements (layout : Layout) (driven : List (ModuleId × Nat))
    (previous : Option ModuleId) {m : Module} {n : Node} (hm : g.get? m.id = some m)
    (hn : layout.get? m.id = some n) :
    g.IsBlock layout m.id (moduleStatements layout driven previous m n) := by
  refine ⟨m, n, inputStatements layout previous m n,
    outputStatements n ++ fanOutStatements driven m n, hm, hn, by simp [moduleStatements],
    fun x => exists_eq_load_of_mem, ?_⟩
  intro x hx
  rcases List.mem_append.mp hx with hx | hx
  · exact Or.inl (exists_eq_store_of_mem hx)
  · rcases List.mem_map.mp hx with ⟨y, -, rfl⟩
    exact Or.inr ⟨_, rfl⟩

lemma exists_blocks (layout : Layout) (driven : List (ModuleId × Nat)) :
    ∀ (placed : List (Module × Node)) (previous : Option ModuleId),
      (∀ m n, (m, n) ∈ placed → g.get? m.id = some m ∧ layout.get? m.id = some n) →
      ∃ blocks, List.Forall₂ (g.IsBlock layout) (placed.map (·.1.id)) blocks ∧
        statementsFrom layout driven previous placed = blocks.flatten := by
  intro placed
  induction placed with
  | nil =>
      intro previous _
      exact ⟨[], List.Forall₂.nil, rfl⟩
  | cons x placed ih =>
      intro previous h
      rcases x with ⟨m, n⟩
      rcases h m n (List.mem_cons_self ..) with ⟨hm, hn⟩
      rcases ih (some m.id) (fun m' n' hmem => h m' n' (List.mem_cons_of_mem _ hmem)) with
        ⟨blocks, hblocks, hflatten⟩
      refine ⟨moduleStatements layout driven previous m n :: blocks,
        List.Forall₂.cons (isBlock_moduleStatements layout driven previous hm hn) hblocks, ?_⟩
      rw [statementsFrom, hflatten, List.flatten_cons]

end Graph

/-- The text of a statement is empty or a number of whole lines. -/
lemma Statement.render_lines (x : Statement) :
    x.render = "" ∨ x.render.toList.getLast? = some '\n' := by
  cases x with
  | load register offset => simp [render, List.getLast?_cons, List.getLast?_append]
  | store register => simp [render, List.getLast?_cons, List.getLast?_append]
  | modulate offset => simp [render, List.getLast?_cons, List.getLast?_append]
  | fragment owner d =>
      rw [render, endLine]
      split_ifs with hend
      · cases hlast : d.code.toList.getLast? with
        | none =>
            rw [List.getLast?_eq_none_iff] at hlast
            exact Or.inl (String.toList_eq_nil_iff.mp hlast)
        | some c =>
            right
            simpa [hlast] using hend
      · simp

/-! ## Contracts that can be kept

A reaction gives an output and own cells of the sizes that the definition has, or no fragment could
leave them where they belong.  For every such reaction there is a host, and it is the reaction of an
empty fragment if it does nothing. -/

/-- A reaction fits the sizes of a definition. -/
def FitsSizes (react : Reaction α) (d : Definition) : Prop :=
  ∀ input own, input.length = d.inChannels.toNat → own.params.length = d.paramCount →
    own.workspace.length = d.workspaceSize.toNat →
    (react input own).1.length = d.outChannels.toNat ∧
    (react input own).2.params.length = d.paramCount ∧
    (react input own).2.workspace.length = d.workspaceSize.toNat

/-- The host that does what the reactions say. -/
def Host.perform (react : ModuleId → Reaction α) : Host α σ := fun id d s =>
  let result := react id (s.registers.take d.inChannels.toNat) (s.own s.cursor d)
  some { s with
    cells := s.cells.take s.cursor ++ (result.2.params ++ (result.2.workspace ++
      s.cells.drop (s.cursor + d.ownCount)))
    cursor := s.cursor + d.ownCount
    left := result.1[0]?.getD s.left
    right := result.1[1]?.getD s.right }

lemma take_registers {output : List α} {a b : α} (h : output.length ≤ 2) :
    [output[0]?.getD a, output[1]?.getD b].take output.length = output := by
  match output, h with
  | [], _ => rfl
  | [_], _ => rfl
  | [_, _], _ => rfl

theorem honours_perform {m : Module} {n : Node} {size : Nat} (hcode : m.definition.code ≠ "")
    (hflaw : m.definition.flaw? = none) (hsize : n.start + m.definition.ownCount ≤ size)
    (hreact : FitsSizes (react m.id) m.definition) :
    Honours (Host.perform react : Host α σ) (react m.id) size m n := by
  intro s hlength hcursor
  have hflawless := Definition.flaw?_eq_none_iff.mp hflaw
  have hin : m.definition.inChannels.toNat ≤ 2 := UInt8.le_iff_toNat_le.mp hflawless.1.1
  have hout : m.definition.outChannels.toNat ≤ 2 := UInt8.le_iff_toNat_le.mp hflawless.1.2
  have hown : m.definition.ownCount =
      m.definition.paramCount + m.definition.workspaceSize.toNat := rfl
  have hsizes := hreact (s.registers.take m.definition.inChannels.toNat)
    (s.own s.cursor m.definition) (by simp [Machine.registers]; omega)
    (by simp [Machine.own, Machine.slice]; omega) (by simp [Machine.own, Machine.slice]; omega)
  refine ⟨_, by rw [Machine.exec, if_neg hcode]; rfl, ?_⟩
  rcases hresult : react m.id (s.registers.take m.definition.inChannels.toNat)
    (s.own s.cursor m.definition) with ⟨output, own⟩
  rw [hresult] at hsizes
  rcases hsizes with ⟨houtput, hparams, hworkspace⟩
  simp only at houtput hparams hworkspace
  have hhead : (s.cells.take s.cursor).length = s.cursor := by
    rw [List.length_take]
    omega
  refine ⟨?_, rfl, ?_, ?_⟩
  · simp only [List.length_append, List.length_take, List.length_drop]
    omega
  · intro k hk
    dsimp only
    rcases hk with hk | hk
    · rw [List.getElem?_append_left (by omega), List.getElem?_take_of_lt hk]
    · rw [List.getElem?_append_right (by omega), List.getElem?_append_right (by omega),
        List.getElem?_append_right (by omega), List.getElem?_drop]
      congr 1
      omega
  · rw [hresult]
    refine Prod.ext ?_ (Cells.ext ?_ ?_)
    · show ([_, _] : List α).take m.definition.outChannels.toNat = output
      rw [← houtput]
      exact take_registers (by omega)
    · show (List.drop s.cursor _).take m.definition.paramCount = own.params
      rw [List.drop_left' hhead, List.take_left' hparams]
    · show (List.drop (s.cursor + m.definition.paramCount) _).take
        m.definition.workspaceSize.toNat = own.workspace
      rw [← List.append_assoc, List.drop_left' (by rw [List.length_append, hhead, hparams]),
        List.take_left' hworkspace]

lemma honours_empty {m : Module} {n : Node} {size : Nat} {react : Reaction α}
    (hcode : m.definition.code = "") (hnone : m.definition.ownCount = 0)
    (hchannels : m.definition.outChannels ≤ m.definition.inChannels)
    (hreact : ∀ input own, react input own = (input.take m.definition.outChannels.toNat, own)) :
    Honours host react size m n := by
  intro s _ _
  refine ⟨s, by rw [Machine.exec, if_pos hcode], rfl, by rw [hnone]; rfl, fun _ _ => rfl, ?_⟩
  have hle := UInt8.le_iff_toNat_le.mp hchannels
  rw [hreact, List.take_take, Nat.min_eq_left hle]

/-- A graph whose empty fragments have nothing to do runs under the host that does what the
reactions say. -/
theorem Graph.IsSchedule.allHonoured_perform (hs : g.IsSchedule modules) (hg : g.WellFormed)
    (hfits : ∀ id m, g.get? id = some m → m.definition.code ≠ "" →
      FitsSizes (react id) m.definition)
    (hempty : ∀ id m, g.get? id = some m → m.definition.code = "" →
      m.definition.ownCount = 0 ∧ m.definition.outChannels ≤ m.definition.inChannels ∧
      ∀ input own, react id input own = (input.take m.definition.outChannels.toNat, own)) :
    g.AllHonoured (Layout.ofModules modules) (Host.perform react : Host α σ) react := by
  intro id m n hlive hm hn
  cases hg.id_eq id m hm
  by_cases hcode : m.definition.code = ""
  · rcases hempty m.id m hm hcode with ⟨hnone, hchannels, hreact⟩
    exact honours_empty hcode hnone hchannels hreact
  · refine honours_perform hcode (hg.fits _ _ hm).flawless ?_ (hfits m.id m hm hcode)
    have hplaced := hs.mem_placements_iff.mpr ⟨hlive, hm, hn⟩
    have hstop := stop_le_size hplaced
    rw [stop_eq_of_mem hplaced] at hstop
    rw [size_ofModules]
    omega

/-! ## Correctness -/

namespace Graph

/-- The own cells of all modules in a state array. -/
def memoryOf (g : Graph) (layout : Layout) (s : Machine α σ) : Memory α := fun id =>
  match g.get? id, layout.get? id with
  | some m, some n => s.own n.start m.definition
  | _, _ => ⟨[], []⟩

lemma holds_memoryOf {layout : Layout} (h : s.cells.length = layout.size) :
    g.Holds layout (g.memoryOf layout s) s := by
  refine ⟨h, ?_⟩
  intro id m n _ hm hn
  simp only [memoryOf, hm, hn]

/-- **The compiler is correct.**  The code of a patch is the text of one block of statements for
every module in the order of the schedule, in whole lines.  Run once per sample from any machine
with a state array of the size of the patch, under any host that keeps the contracts of the
fragments, the statements have a result after every number of samples: no cell outside the array is
addressed.  In each sample

* the equations of the graph have exactly one solution over the cells that the sample finds,
* the cursor ends behind the last cell, and the array holds the cells of the solution,
* the fragment of every module that the sink needs is run at its range with the signals of the
  solution in its registers and its driven parameters, and leaves its signal in the registers,
* a sink without a fragment leaves its main input in the registers. -/
theorem compile_correct (hg : g.Reachable) {patch : Patch} (hpatch : g.compile = .ok patch)
    (hhost : g.AllHonoured patch.layout host react) (v : Machine α σ)
    (hv : v.cells.length = patch.stateSize) :
    ∃ blocks : List (List Statement),
      List.Forall₂ (g.IsBlock patch.layout) patch.schedule.order blocks ∧
      patch.code = String.join (blocks.flatten.map Statement.render) ∧
      (∀ x ∈ blocks.flatten, x.render = "" ∨ x.render.toList.getLast? = some '\n') ∧
      ∃ (memory : Nat → Memory α) (signals : Nat → Signals α),
        g.Holds patch.layout (memory 0) v ∧
        ∀ k, g.Solves react (memory k) (signals k) (memory (k + 1)) ∧
          (∀ signals' after, g.Solves react (memory k) signals' after →
            ∀ id, g.Live id → signals' id = signals k id ∧ after id = memory (k + 1) id) ∧
          ∃ s t, v.samples host blocks.flatten k = some s ∧
            s.sample host blocks.flatten = some t ∧
            t.cursor = patch.stateSize ∧ g.Holds patch.layout (memory (k + 1)) t ∧
            (∀ id m n, g.Live id → g.get? id = some m → patch.layout.get? id = some n →
              Activates host (memory k) (signals k) m n blocks.flatten s.rewind) ∧
            (∀ m, g.get? .sink = some m → m.definition.code = "" →
              t.registers.take m.inChannels.toNat = m.inputSignal (signals k)) := by
  rcases compile_eq_ok_iff.mp hpatch with ⟨modules, hmodules, rfl⟩
  have hwf := hg.wellFormed
  have hs := (scheduled_spec hwf.id_eq).1 modules hmodules
  have hplaced : ∀ m n, (m, n) ∈ placements modules →
      g.get? m.id = some m ∧ (Layout.ofModules modules).get? m.id = some n :=
    fun m n hmem => (hs.mem_placements_iff.mp hmem).2
  rcases exists_blocks (Layout.ofModules modules) (allDrivenCells (placements modules))
      (placements modules) none hplaced with ⟨blocks, hblocks, hflatten⟩
  have hprogram : program modules (Layout.ofModules modules) = blocks.flatten := hflatten
  rw [map_id_placements] at hblocks
  have hstart : g.Holds (Layout.ofModules modules) (g.memoryOf (Layout.ofModules modules) v) v :=
    holds_memoryOf hv
  set memory := remember react modules (g.memoryOf (Layout.ofModules modules) v)
  refine ⟨blocks, hblocks, ?_, fun x _ => x.render_lines, memory,
    fun k => (evaluate react (memory k) modules).signals, hstart, ?_⟩
  · rw [← hprogram]
    rfl
  · intro k
    have hsolves : g.Solves react (memory k) (evaluate react (memory k) modules).signals
        (memory (k + 1)) := hs.solves_evaluate (memory k)
    refine ⟨hsolves, fun signals' after h id hid => hs.solves_unique h hsolves hid, ?_⟩
    rcases hs.samples hwf hhost hstart k with ⟨s, hrun, hholds⟩
    rcases hs.sample hwf hhost hsolves hholds with ⟨t, hsample, hcursor, hnext, hactivates, hsink⟩
    rw [hprogram] at hrun hsample hactivates
    refine ⟨s, t, hrun, hsample, hcursor, hnext, ?_, hsink⟩
    intro id m n hlive hm hn
    cases hwf.id_eq id m hm
    exact hactivates m n (hs.mem_placements_iff.mpr ⟨hlive, hm, hn⟩)

/-- What the fragments of the demo patch do, on exact numbers. -/
def demoReact (id : ModuleId) : Reaction Rat := fun input own =>
  match id.index with
  | 1 | 3 =>
      let sum := own.workspace.headD 0 + own.params.headD 0
      let phase := sum - sum.floor
      ([phase], ⟨own.params, [phase]⟩)
  | 2 =>
      let position := own.params.headD 0
      ([input.headD 0 * (1 - position), input.headD 0 * position], own)
  | 4 => (input.map (· * own.params.headD 0), own)
  | _ => ([], own)

lemma definition_of_get? {definitions : Array (Option Definition)} {k : Nat} {m : Module}
    (hdefinitions : g.arena.map (Option.map (·.definition)) = definitions)
    (h : g.get? ⟨k⟩ = some m) : definitions[k]? = some (some m.definition) := by
  subst hdefinitions
  simp [get?_eq_some_iff.mp h]

lemma demo_definition {id : ModuleId} {m : Module} (h : demo.get? id = some m) :
    id.index = 0 ∧ m.definition = .sink ∨
    (id.index = 1 ∨ id.index = 3) ∧ m.definition = demoSawtooth ∨
    id.index = 2 ∧ m.definition = demoPan ∨ id.index = 4 ∧ m.definition = demoMul := by
  rcases id with ⟨k⟩
  have hk := definition_of_get? demo_definitions h
  clear h
  match k with
  | 0 | 1 | 2 | 3 | 4 => simpa [eq_comm] using hk
  | 5 => simp at hk
  | k + 6 => simp at hk

lemma demo_fitsSizes (id : ModuleId) (m : Module) (hm : demo.get? id = some m)
    (hcode : m.definition.code ≠ "") : FitsSizes (demoReact id) m.definition := by
  intro input own hin hparams hworkspace
  rcases demo_definition hm with ⟨-, hd⟩ | ⟨hid | hid, hd⟩ | ⟨hid, hd⟩ | ⟨hid, hd⟩ <;>
    rw [hd] at hcode hin hparams hworkspace ⊢
  · exact absurd rfl hcode
  · simp only [demoReact, hid]
    exact ⟨rfl, hparams, rfl⟩
  · simp only [demoReact, hid]
    exact ⟨rfl, hparams, rfl⟩
  · simp only [demoReact, hid]
    exact ⟨rfl, hparams, hworkspace⟩
  · simp only [demoReact, hid, List.length_map]
    exact ⟨hin, hparams, hworkspace⟩

lemma demo_empty (id : ModuleId) (m : Module) (hm : demo.get? id = some m)
    (hcode : m.definition.code = "") :
    m.definition.ownCount = 0 ∧ m.definition.outChannels ≤ m.definition.inChannels ∧
      ∀ input own,
        demoReact id input own = (input.take m.definition.outChannels.toNat, own) := by
  rcases demo_definition hm with ⟨hid, hd⟩ | ⟨-, hd⟩ | ⟨-, hd⟩ | ⟨-, hd⟩
  · rw [hd]
    refine ⟨rfl, by decide, fun input own => ?_⟩
    simp only [demoReact, hid]
    rfl
  all_goals
    rw [hd] at hcode
    exact absurd hcode (by decide)

/-- A voice of the demo patch. -/
def demoVoice : Machine Rat Unit := ⟨[1 / 4, 0, 1 / 2, 0, 0, 1 / 8, 0, 0], 0, 0, 0, ()⟩

/-- The demo patch runs for any number of samples, and its sink leaves its input for the mix. -/
theorem compile_correct_demo :
    ∃ patch, demo.compile = .ok patch ∧
      demo.AllHonoured patch.layout (Host.perform demoReact : Host Rat Unit) demoReact ∧
      demoVoice.cells.length = patch.stateSize ∧
      ∃ statements, patch.code = String.join (statements.map Statement.render) ∧
        ∀ k, ∃ s t, demoVoice.samples (Host.perform demoReact) statements k = some s ∧
          s.sample (Host.perform demoReact) statements = some t ∧ t.cursor = 8 := by
  have hsize : demo.compile.toOption.map (·.stateSize) = some 8 := by decide +kernel
  cases hcompile : demo.compile with
  | error e =>
      rw [hcompile] at hsize
      cases hsize
  | ok patch =>
      rw [hcompile] at hsize
      have hpatch : patch.stateSize = 8 := Option.some.inj hsize
      rcases compile_eq_ok_iff.mp hcompile with ⟨modules, hmodules, heq⟩
      have hwf := demo_reachable.wellFormed
      have hs := (scheduled_spec hwf.id_eq).1 modules hmodules
      have hhost : demo.AllHonoured patch.layout (Host.perform demoReact : Host Rat Unit)
          demoReact := by
        rw [heq]
        exact hs.allHonoured_perform hwf demo_fitsSizes demo_empty
      have hlength : demoVoice.cells.length = patch.stateSize := by rw [hpatch]; rfl
      rcases compile_correct demo_reachable hcompile hhost demoVoice hlength with
        ⟨blocks, -, hcode, -, memory, signals, -, hsamples⟩
      refine ⟨patch, rfl, hhost, hlength, blocks.flatten, hcode, fun k => ?_⟩
      rcases (hsamples k).2.2 with ⟨s, t, hrun, hsample, hcursor, -⟩
      exact ⟨s, t, hrun, hsample, hcursor.trans hpatch⟩

end Graph

end Patchbay
