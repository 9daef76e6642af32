import Patchbay.Proofs.Wiring

/-!
# A sample, statement by statement

In the middle of a sample the machine holds a solution of the equations in parts: the modules that
have run have left their cells and, where it is kept, their output; those that will run find in
their own cells what the last sample has left there, except for the parameters that have been driven
already; the registers carry the output of the module that ran last.

* `Midway` — **this invariant**, with the modules that have run and those that will.
* `Midway.run_input`, `Turn.run_closing` — what comes before a fragment, and what comes behind it.
* `Midway.advance` — what has to hold at the end of a turn for the invariant to go on.
* `Midway.step` — the statements of one module keep the invariant.
* `Midway.run` — hence those of any stretch do.
-/

namespace Patchbay

variable {α σ : Type} {host : Host α σ} {g : Graph} {modules : List Module}
  {react : ModuleId → Reaction α} {before after : Memory α} {signals : Signals α}
  {done rest : List (Module × Node)} {m : Module} {n : Node} {s t : Machine α σ}

/-! ## Signals so far -/

/-- The signals of some of the modules. -/
def Signals.upTo (signals : Signals α) (ids : List ModuleId) : Signals α :=
  fun id => if id ∈ ids then signals id else []

lemma Module.driven_upTo_nil (m : Module) (own : Cells α)
    (h : own.params.length = m.params.length) : m.driven (signals.upTo []) own = own := by
  have hparams : List.zipWith (drive (signals.upTo [])) m.params own.params = own.params := by
    apply List.ext_getElem
    · simp [h]
    · intro k _ _
      simp only [List.getElem_zipWith, drive, Signals.upTo, List.not_mem_nil, if_false]
      cases m.params[k].binding <;> rfl
  rw [driven, hparams]

lemma Module.drive_upTo_snoc (ids : List ModuleId) (id : ModuleId) (q : Param) (a : α) :
    drive (signals.upTo (ids ++ [id])) q a =
      if q.binding = some id then (signals id).headD (drive (signals.upTo ids) q a)
      else drive (signals.upTo ids) q a := by
  cases hq : q.binding with
  | none => simp [drive, hq]
  | some p =>
      by_cases hp : p = id
      · subst hp
        by_cases hmem : p ∈ ids
        · cases hsignal : signals p <;> simp [drive, hq, Signals.upTo, hmem, hsignal]
        · simp [drive, hq, Signals.upTo, hmem]
      · simp [drive, hq, Signals.upTo, hp]

/-- One more module has run: the parameters bound to it hold its signal now. -/
lemma Module.getElem?_driven_snoc (m : Module) (ids : List ModuleId) (id : ModuleId) (own : Cells α)
    (j : Nat) :
    (m.driven (signals.upTo (ids ++ [id])) own).params[j]? =
      if m.params[j]?.bind (·.binding) = some id then
        (m.driven (signals.upTo ids) own).params[j]?.map fun a => (signals id).headD a
      else (m.driven (signals.upTo ids) own).params[j]? := by
  simp only [driven, List.getElem?_zipWith]
  cases hq : m.params[j]? with
  | none => simp
  | some q =>
      cases own.params[j]? with
      | none => simp
      | some a =>
          simp only [drive_upTo_snoc, Option.bind_some]
          split_ifs <;> rfl

/-! ## The invariant -/

/-- **In the middle of a sample**, `done` have run and `rest` will.  The sample has found the cells
`before`, its signals are `signals`, and it will leave the cells `after`. -/
structure Midway (before after : Memory α) (signals : Signals α) (done rest : List (Module × Node))
    (s : Machine α σ) : Prop where
  length : s.cells.length = span (done ++ rest)
  cursor : s.cursor = span done
  finished : ∀ m n, (m, n) ∈ done → s.own n.start m.definition = after m.id
  kept : ∀ m n, (m, n) ∈ done → n.buffered = true →
    s.slice (n.start + m.definition.ownCount) m.outChannels.toNat = signals m.id
  waiting : ∀ m n, (m, n) ∈ rest →
    s.own n.start m.definition = m.driven (signals.upTo (done.map (·.1.id))) (before m.id)
  carried : ∀ m n, done.getLast? = some (m, n) →
    s.registers.take m.outChannels.toNat = signals m.id
  passed : ∀ m n, done.getLast? = some (m, n) → m.definition.code = "" →
    s.registers.take m.inChannels.toNat = m.inputSignal signals

namespace Midway

/-- What comes before a fragment brings the main input into the registers. -/
lemma run_input (host : Host α σ) (turn : Turn g modules done m n rest)
    (h : Midway before after signals done ((m, n) :: rest) s) :
    ∃ t, s.run host (inputStatements (Layout.ofModules modules) (lastId none (done.map (·.1))) m n)
        = some t ∧ t.cells = s.cells ∧ t.cursor = s.cursor ∧
      t.registers.take m.inChannels.toNat = m.inputSignal signals := by
  rw [inputStatements]
  cases hinput : m.mainInput with
  | none =>
      have hin : m.inChannels = 0 := by
        have hfed := turn.schedule.fed m (mem_modules_of_mem turn.placed)
        simpa [Module.isStarved, hinput] using hfed
      exact ⟨s, rfl, rfl, rfl, by simp [hin, Module.inputSignal, hinput]⟩
  | some p =>
      have hp : p ∈ m.producers := Module.mem_producers_iff.mpr (Or.inl hinput)
      rcases turn.exists_producer hp with ⟨q, nq, hdone, rfl⟩
      have hplaced := turn.placed_of_done hdone
      rcases turn.channels_of_mainInput hinput hplaced with ⟨hsame, hchannels⟩
      have hsignal : m.inputSignal signals = signals q.id := by simp [Module.inputSignal, hinput]
      simp only [hsignal]
      by_cases hlast : lastId none (done.map (·.1)) = some q.id
      · rw [if_pos hlast]
        -- the producer ran just before and its output is still in the registers
        refine ⟨s, rfl, rfl, rfl, ?_⟩
        cases hend : done.getLast? with
        | none => simp [lastId, hend] at hlast
        | some x =>
            have hx : x.1.id = q.id := by simpa [lastId, hend] using hlast
            have hx' := turn.placed_of_done (List.mem_of_getLast? hend)
            cases (placements_inj turn.schedule.nodup hx' hplaced hx).1
            rw [← hsame]
            exact h.carried _ _ hend
      · rw [if_neg hlast]
        have hbuffered := turn.buffered_of_producer hp hlast hdone
        have hbound : nq.start + q.definition.ownCount + m.inChannels.toNat ≤ s.cells.length := by
          have hstop := stop_le_span turn.split hdone
          rw [stop_eq_of_mem hplaced, outputCount_of_buffered hplaced hbuffered, hsame] at hstop
          rw [h.length, span_append]
          omega
        simp only [get?_ofModules turn.schedule.nodup hplaced, Option.bind_some,
          outputCell?_of_buffered hplaced hbuffered]
        rw [turn.start_eq, ← h.cursor]
        rcases Machine.run_loads host hchannels hbound with
          ⟨t, hrun, hcells, hcursor, hregs⟩
        refine ⟨t, hrun, hcells, hcursor, ?_⟩
        rw [hregs, ← hsame]
        exact h.kept q nq hdone hbuffered

/-- A module that will run finds the signal of `m` in the parameters bound to `m`, and otherwise
what it would have found before. -/
lemma own_of_rest (turn : Turn g modules done m n rest)
    (h : Midway before after signals done ((m, n) :: rest) s)
    (hframe : ∀ k, n.stop ≤ k → k ∉ fanOutCells (placements modules) m.id →
      t.cells[k]? = s.cells[k]?)
    (hfan : ∀ k ∈ fanOutCells (placements modules) m.id, t.cells[k]? = some t.left)
    (hcarried : t.registers.take m.outChannels.toNat = signals m.id) {m' : Module} {n' : Node}
    (hr : (m', n') ∈ rest) :
    t.own n'.start m'.definition =
      m'.driven (signals.upTo (done.map (·.1.id) ++ [m.id])) (before m'.id) := by
  have hplaced := turn.placed_of_rest hr
  have hwaiting := h.waiting m' n' (List.mem_cons_of_mem _ hr)
  have hstart := stop_le_start turn.split hr
  have hsize : n'.start + m'.definition.ownCount ≤ s.cells.length := by
    have hstop := stop_le_size hplaced
    rw [stop_eq_of_mem hplaced, turn.split] at hstop
    rw [h.length]
    omega
  apply Cells.ext
  · apply List.ext_getElem?
    intro j
    have hold := congrArg (fun own => own.params[j]?) hwaiting
    simp only [Machine.own, Machine.getElem?_slice] at hold ⊢
    rw [Module.getElem?_driven_snoc, ← hold]
    by_cases hj : j < m'.definition.paramCount
    · have hj' : j < m'.definition.ownCount := Nat.lt_of_lt_of_le hj (Nat.le_add_right _ _)
      have hdriven := turn.mem_fanOutCells_of_rest hr hj'
      simp only [if_pos hj]
      split_ifs with hbound
      · rcases Option.bind_eq_some_iff.mp hbound with ⟨q, hq, hbinding⟩
        have hone := turn.channels_of_binding hplaced (List.mem_of_getElem? hq) hbinding
        rw [hone] at hcarried
        rw [hfan _ (hdriven.mpr ⟨q, hq, hbinding⟩), ← hcarried,
          List.getElem?_eq_getElem (show n'.start + j < s.cells.length by omega)]
        rfl
      · refine hframe _ (by omega) fun hmem => hbound ?_
        rcases hdriven.mp hmem with ⟨q, hq, hbinding⟩
        rw [hq]
        exact hbinding
    · simp [hj]
  · have hold := congrArg Cells.workspace hwaiting
    refine Eq.trans (Machine.slice_congr fun k hlow hhigh =>
      hframe k (by omega) fun hmem => ?_) hold
    -- a workspace cell is not the cell of a parameter
    have hk : k = n'.start + (k - n'.start) := by omega
    rw [hk, turn.mem_fanOutCells_of_rest hr (by rw [Definition.ownCount]; omega)] at hmem
    rcases hmem with ⟨q, hq, -⟩
    have hlt := (List.getElem?_eq_some_iff.mp hq).1
    rw [turn.params_length hplaced] at hlt
    omega

/-- What has to hold behind the statements of a module for the invariant to go on. -/
lemma advance (turn : Turn g modules done m n rest)
    (h : Midway before after signals done ((m, n) :: rest) s)
    (hlength : t.cells.length = s.cells.length) (hcursor : t.cursor = n.stop)
    (hframe : ∀ k, k < n.start ∨ n.stop ≤ k → k ∉ fanOutCells (placements modules) m.id →
      t.cells[k]? = s.cells[k]?)
    (hfan : ∀ k ∈ fanOutCells (placements modules) m.id, t.cells[k]? = some t.left)
    (hown : t.own n.start m.definition = after m.id)
    (hkept : n.buffered = true →
      t.slice (n.start + m.definition.ownCount) m.outChannels.toNat = signals m.id)
    (hcarried : t.registers.take m.outChannels.toNat = signals m.id)
    (hpassed : m.definition.code = "" →
      t.registers.take m.inChannels.toNat = m.inputSignal signals) :
    Midway before after signals (done ++ [(m, n)]) rest t := by
  -- nothing that has run is touched: the module writes to its range and behind it
  have hbelow : ∀ k, k < n.start → t.cells[k]? = s.cells[k]? := by
    intro k hk
    refine hframe k (Or.inl hk) fun hmem => ?_
    have hbound := (turn.fanOut_bounds hmem).1
    rw [Node.stop] at hbound
    omega
  have hstop : ∀ {m' n'}, (m', n') ∈ done →
      n'.start + m'.definition.ownCount + n'.outputCount ≤ n.start := by
    intro m' n' hd
    rw [← stop_eq_of_mem (turn.placed_of_done hd), turn.start_eq]
    exact stop_le_span turn.split hd
  have hmem : ∀ {m' n'}, (m', n') ∈ done ++ [(m, n)] → (m', n') ∈ done ∨ m' = m ∧ n' = n := by
    intro m' n' hx
    simpa using hx
  refine ⟨?_, ?_, ?_, ?_, ?_, ?_, ?_⟩
  · rw [hlength, h.length]
    simp
  · rw [hcursor, Node.stop, turn.start_eq]
    simp
  · intro m' n' hx
    rcases hmem hx with hd | ⟨rfl, rfl⟩
    · rw [← h.finished m' n' hd]
      refine Machine.own_congr fun k _ hk => hbelow k ?_
      have hle := hstop hd
      omega
    · exact hown
  · intro m' n' hx hbuffered
    rcases hmem hx with hd | ⟨rfl, rfl⟩
    · rw [← h.kept m' n' hd hbuffered]
      refine Machine.slice_congr fun k _ hk => hbelow k ?_
      have hle := hstop hd
      rw [outputCount_of_buffered (turn.placed_of_done hd) hbuffered] at hle
      omega
    · exact hkept hbuffered
  · intro m' n' hr
    rw [List.map_append]
    exact h.own_of_rest turn (fun k hk => hframe k (Or.inr hk)) hfan hcarried hr
  · intro m' n' hlast
    cases List.getLast?_concat.symm.trans hlast
    exact hcarried
  · intro m' n' hlast
    cases List.getLast?_concat.symm.trans hlast
    exact hpassed

end Midway

/-! ## One module -/

/-- **A fragment is run as the equations have it**, from `s` to `t`: with the cursor at its range,
its main input in the registers and its driven parameters in place, and it leaves its signal. -/
structure Activation (host : Host α σ) (before : Memory α) (signals : Signals α) (m : Module)
    (n : Node) (s t : Machine α σ) : Prop where
  exec : s.exec host (.fragment m.id m.definition) = some t
  cursor : s.cursor = n.start
  input : s.registers.take m.inChannels.toNat = m.inputSignal signals
  own : s.own n.start m.definition = m.driven signals (before m.id)
  output : t.registers.take m.outChannels.toNat = signals m.id

/-- The statements behind the fragment of a module. -/
def closingStatements (modules : List Module) (m : Module) (n : Node) : List Statement :=
  outputStatements n ++ fanOutStatements (allDrivenCells (placements modules)) m n

/-- They keep the output behind the own cells, write it to the cells that the module drives, and
leave everything else as it is. -/
lemma Turn.run_closing (host : Host α σ) (turn : Turn g modules done m n rest)
    (hcursor : s.cursor = n.start + m.definition.ownCount)
    (hlength : s.cells.length = span (placements modules)) :
    ∃ t, s.run host (closingStatements modules m n) = some t ∧ t.registers = s.registers ∧
      t.cells.length = s.cells.length ∧ t.cursor = n.stop ∧
      (∀ k ∈ fanOutCells (placements modules) m.id, t.cells[k]? = some s.left) ∧
      (∀ k, k < n.start + m.definition.ownCount ∨ n.stop ≤ k →
        k ∉ fanOutCells (placements modules) m.id → t.cells[k]? = s.cells[k]?) ∧
      t.slice (n.start + m.definition.ownCount) n.outputCount =
        s.registers.take n.outputCount := by
  have hstop := stop_eq_of_mem turn.placed
  have hsize := stop_le_size turn.placed
  rcases Machine.run_stores host (s := s) turn.channels_of_buffered (by omega) with
    ⟨s₁, hstores, hregs₁, hlength₁, hcursor₁, hframe₁, hslice₁⟩
  have hat : s₁.cursor = n.stop := by omega
  rcases Machine.run_modulates host (fanOutCells (placements modules) m.id) (s := s₁)
      (fun k hk => by rw [hlength₁, hlength]; exact (turn.fanOut_bounds hk).2) with
    ⟨t, hmodulates, hregs, hcursor₂, hlength₂, hcells⟩
  refine ⟨t, ?_, hregs.trans hregs₁, hlength₂.trans hlength₁, hcursor₂.trans hat, ?_, ?_, ?_⟩
  · rw [closingStatements, Machine.run_append_of_eq hstores, fanOutStatements_eq, ← hat]
    exact hmodulates
  · intro k hk
    have hleft : s₁.left = s.left := congrArg (fun registers => registers.headD s₁.left) hregs₁
    rw [hcells, if_pos hk, hleft]
  · intro k hk hmem
    rw [hcells, if_neg hmem, hframe₁ k (by omega)]
  · rw [← hslice₁, hcursor]
    refine Machine.slice_congr fun k _ hk => ?_
    rw [hcells, if_neg fun hmem => ?_]
    have hbound := (turn.fanOut_bounds hmem).1
    omega

namespace Midway

/-- The fragment of a module finds what the equations give it, so it leaves what they say. -/
lemma run_fragment (turn : Turn g modules done m n rest)
    (hsolves : g.Solves react before signals after)
    (hhost : Honours host (react m.id) (span (placements modules)) m n)
    (h : Midway before after signals done ((m, n) :: rest) s) {s₁ : Machine α σ}
    (hcells : s₁.cells = s.cells) (hcursor : s₁.cursor = s.cursor)
    (hinput : s₁.registers.take m.inChannels.toNat = m.inputSignal signals) :
    ∃ s₂, Activation host before signals m n s₁ s₂ ∧ Reacts (react m.id) m.definition s₁ s₂ ∧
      s₂.own n.start m.definition = after m.id := by
  have hstart : s₁.cursor = n.start := by rw [hcursor, h.cursor, turn.start_eq]
  have hown : s₁.own n.start m.definition = m.driven signals (before m.id) := by
    have hproducers : ∀ p ∈ m.producers, signals.upTo (done.map (·.1.id)) p = signals p := by
      intro p hp
      rcases turn.exists_producer hp with ⟨q, nq, hd, rfl⟩
      exact if_pos (List.mem_map_of_mem (f := (·.1.id)) hd)
    rw [← Module.driven_congr hproducers, ← h.waiting m n (List.mem_cons_self ..)]
    exact Machine.own_congr fun k _ _ => by rw [hcells]
  rcases hhost s₁ (by rw [hcells, h.length, turn.split]) hstart with ⟨s₂, hexec, hreacts⟩
  have hlive : g.Live m.id :=
    (turn.schedule.live_iff m.id).mp (List.mem_map_of_mem (mem_modules_of_mem turn.placed))
  have hresult := hreacts.result
  change (_, _) = react m.id (s₁.registers.take m.inChannels.toNat) _ at hresult
  rw [hstart, hown, hinput, ← hsolves m.id m hlive (turn.member turn.placed)] at hresult
  rcases Prod.mk.inj hresult with ⟨houtput, hafter⟩
  exact ⟨s₂, ⟨hexec, hstart, hinput, hown, houtput⟩, hreacts, hafter⟩

/-- **The statements of one module keep the invariant**, and its fragment is run as the equations
have it. -/
theorem step (turn : Turn g modules done m n rest)
    (hsolves : g.Solves react before signals after)
    (hhost : Honours host (react m.id) (span (placements modules)) m n)
    (h : Midway before after signals done ((m, n) :: rest) s) :
    ∃ s₁ s₂ t,
      s.run host (inputStatements (Layout.ofModules modules) (lastId none (done.map (·.1))) m n) =
        some s₁ ∧
      Activation host before signals m n s₁ s₂ ∧
      s₂.run host (closingStatements modules m n) = some t ∧
      Midway before after signals (done ++ [(m, n)]) rest t := by
  rcases h.run_input host turn with ⟨s₁, hrun, hcells, hcursor, hinput⟩
  rcases h.run_fragment turn hsolves hhost hcells hcursor hinput with ⟨s₂, hact, hreacts, hown⟩
  have hcursor₂ : s₂.cursor = n.start + m.definition.ownCount := by
    rw [hreacts.cursor, hact.cursor]
  have hlength₂ : s₂.cells.length = s.cells.length := by rw [hreacts.length, hcells]
  rcases turn.run_closing host hcursor₂ (by rw [hlength₂, h.length, ← turn.split]) with
    ⟨t, hclosing, hregs, hlength, hstop, hfan, hframe, hkept⟩
  -- the own cells lie before those that the closing statements write to
  have hbefore : ∀ k, k < n.start + m.definition.ownCount → t.cells[k]? = s₂.cells[k]? := by
    intro k hk
    refine hframe k (Or.inl hk) fun hmem => ?_
    have hbound := (turn.fanOut_bounds hmem).1
    rw [stop_eq_of_mem turn.placed] at hbound
    omega
  refine ⟨s₁, s₂, t, hrun, hact, hclosing, h.advance turn ?_ hstop ?_ ?_ ?_ ?_ ?_ ?_⟩
  · rw [hlength, hlength₂]
  · intro k hk hmem
    have hn := stop_eq_of_mem turn.placed
    rw [hframe k (by omega) hmem, hreacts.frame k (by rw [hact.cursor]; omega), hcells]
  · intro k hk
    have hleft : t.left = s₂.left := congrArg (fun registers => registers.headD t.left) hregs
    rw [hfan k hk, hleft]
  · rw [← hown]
    exact Machine.own_congr fun k _ hk => hbefore k hk
  · intro hbuffered
    rw [outputCount_of_buffered turn.placed hbuffered] at hkept
    rw [hkept]
    exact hact.output
  · rw [hregs]
    exact hact.output
  · intro hcode
    have hsame := hact.exec
    rw [Machine.exec, if_pos hcode] at hsame
    cases hsame
    rw [hregs]
    exact hinput

end Midway

/-! ## All modules -/

/-- Somewhere in a run of a program the fragment of a module is run as the equations have it. -/
def Activates (host : Host α σ) (before : Memory α) (signals : Signals α) (m : Module) (n : Node)
    (statements : List Statement) (s : Machine α σ) : Prop :=
  ∃ first second s₁ s₂, statements = first ++ .fragment m.id m.definition :: second ∧
    s.run host first = some s₁ ∧ Activation host before signals m n s₁ s₂

lemma Activates.prepend {first statements : List Statement} (hrun : s.run host first = some t)
    (h : Activates host before signals m n statements t) :
    Activates host before signals m n (first ++ statements) s := by
  rcases h with ⟨head, second, s₁, s₂, rfl, hhead, hact⟩
  refine ⟨first ++ head, second, s₁, s₂, by rw [List.append_assoc], ?_, hact⟩
  rw [Machine.run_append_of_eq hrun]
  exact hhead

lemma moduleStatements_eq (layout : Layout) (previous : Option ModuleId) (m : Module) (n : Node) :
    moduleStatements layout (allDrivenCells (placements modules)) previous m n =
      inputStatements layout previous m n ++
        .fragment m.id m.definition :: closingStatements modules m n := by
  simp [moduleStatements, closingStatements]

/-- **The statements of all modules that will run** bring the sample to its end, by induction on
these modules. -/
theorem Midway.run (hg : g.WellFormed) (hs : g.IsSchedule modules)
    (hsolves : g.Solves react before signals after)
    (hhost : ∀ m n, (m, n) ∈ placements modules →
      Honours host (react m.id) (span (placements modules)) m n) :
    ∀ {rest done : List (Module × Node)} {s : Machine α σ}, placements modules = done ++ rest →
      Midway before after signals done rest s →
      ∃ t, s.run host (statementsFrom (Layout.ofModules modules)
          (allDrivenCells (placements modules)) (lastId none (done.map (·.1))) rest) = some t ∧
        Midway before after signals (placements modules) [] t ∧
        ∀ m n, (m, n) ∈ rest → Activates host before signals m n
          (statementsFrom (Layout.ofModules modules) (allDrivenCells (placements modules))
            (lastId none (done.map (·.1))) rest) s := by
  intro rest
  induction rest with
  | nil =>
      intro done s hsplit h
      rw [List.append_nil] at hsplit
      exact ⟨s, rfl, hsplit ▸ h, by simp⟩
  | cons x rest ih =>
      intro done s hsplit h
      rcases x with ⟨m, n⟩
      have turn : Turn g modules done m n rest := ⟨hg, hs, hsplit⟩
      rcases h.step turn hsolves (hhost m n turn.placed) with
        ⟨s₁, s₂, s₃, hinput, hact, hclosing, hnext⟩
      have hlast : lastId none ((done ++ [(m, n)]).map (·.1)) = some m.id := by
        simp [lastId, List.getLast?_append]
      rcases ih (by rw [hsplit, List.append_assoc]; rfl) hnext with ⟨t, hrun, hend, hrest⟩
      rw [hlast] at hrun hrest
      have hmodule : s.run host (moduleStatements (Layout.ofModules modules)
          (allDrivenCells (placements modules)) (lastId none (done.map (·.1))) m n) = some s₃ := by
        rw [moduleStatements_eq, Machine.run_append_of_eq hinput, Machine.run_cons, hact.exec]
        exact hclosing
      rw [statementsFrom]
      refine ⟨t, ?_, hend, ?_⟩
      · rw [Machine.run_append_of_eq hmodule]
        exact hrun
      · intro m' n' hmem
        rcases List.mem_cons.mp hmem with heq | hmem
        · cases heq
          exact ⟨_, _, s₁, s₂, by rw [moduleStatements_eq, List.append_assoc, List.cons_append],
            hinput, hact⟩
        · exact (hrest m' n' hmem).prepend hmodule

end Patchbay
