import Patchbay.Proofs.Isolation

/-!
# All voices in one script

The registers and the cursor are shared by all voices and never cleared between them.  Still a
compiled voice reads nothing from them that it has not put there: a module without an input runs
first, and what the sink gets is either left in the registers by the module before it or loaded into
both of them.  So in a script of compiled voices every voice does what it does on its own.

* `Graph.statements` — the program of a graph, and `Graph.code_eq`, its text.
* `Graph.Stereo` — a scheduled graph with a stereo sink, and the module that feeds it.
* `Graph.Stereo.play` — a sample of such a graph inside a session.
* `Graph.Plays` — what is asked of a voice while it runs: that it leaves the others alone, and that
  its output is computed by the module that feeds its sink.
* `Graph.Stereo.settles`, `Graph.Stereo.plays` — a compiled voice keeps to itself, and it plays in
  every session.
* `Graph.mixdown_correct` — **the script of any number of compiled voices is correct.**
* `Graph.AllHonoured.voiceHonoured` — hosts of single voices together make a host of the script that
  keeps the contracts.
-/

namespace Patchbay

variable {α σ : Type} {host : ScriptHost α σ} {voice : Nat} {g : Graph} {modules : List Module}
  {react : ModuleId → Reaction α} {before : Memory α} {s : Session α σ} {v w : Machine α σ}
  {take : Take α}

namespace Graph

/-! ## The program of a graph -/

/-- The program of a graph, which is empty if the graph does not compile. -/
def statements (g : Graph) : List Statement :=
  match g.scheduled with
  | .ok modules => program modules (Layout.ofModules modules)
  | .error _ => []

lemma statements_eq (h : g.scheduled = .ok modules) :
    g.statements = program modules (Layout.ofModules modules) := by
  rw [statements, h]

lemma code_eq {patch : Patch} (h : g.compile = .ok patch) :
    patch.code = renderProgram g.statements := by
  rcases compile_eq_ok_iff.mp h with ⟨modules, hmodules, rfl⟩
  rw [statements_eq hmodules]
  rfl

/-! ## Stereo sinks -/

/-- **A graph with a stereo sink**, the order in which its modules run, and the module `q` that
feeds the sink. -/
structure Stereo (g : Graph) (modules : List Module) (sink q : Module) (n : Node) : Prop where
  wellFormed : g.WellFormed
  scheduled : g.scheduled = .ok modules
  schedule : g.IsSchedule modules
  member : g.get? .sink = some sink
  stereo : sink.definition = .sink
  input : sink.mainInput = some q.id
  placed : (q, n) ∈ placements modules
  outChannels : q.outChannels = 2

/-- A stereo sink in a graph with a schedule is fed. -/
lemma exists_stereo (hg : g.WellFormed) (hmodules : g.scheduled = .ok modules) {sink : Module}
    (hsink : g.get? .sink = some sink) (hstereo : sink.definition = .sink) :
    ∃ q n, Stereo g modules sink q n := by
  have hs := (scheduled_spec hg.id_eq).1 modules hmodules
  have hin : sink.inChannels = 2 := by
    rw [Module.inChannels, hstereo]
    rfl
  have hmem : sink ∈ modules := by
    rcases List.mem_map.mp ((hs.live_iff .sink).mpr .sink) with ⟨m, hm, hid⟩
    have hm' := hs.member m hm
    rw [hid, hsink] at hm'
    cases hm'
    exact hm
  cases hinput : sink.mainInput with
  | none =>
      have hfed := hs.fed sink hmem
      simp [Module.isStarved, hinput, hin] at hfed
  | some p =>
      rcases (hg.fits _ _ hsink).mainInput p hinput with ⟨-, hout⟩
      rcases outputs_eq_some_iff.mp hout with ⟨q, hq, hcount⟩
      have hp : p ∈ (placements modules).map (·.1.id) := by
        rw [map_id_placements, hs.live_iff]
        exact Live.sink.tail
          ((dependsOn_iff hsink).mpr (Module.mem_producers_iff.mpr (Or.inl hinput)))
      rcases List.mem_map.mp hp with ⟨⟨q', n⟩, hplaced, hid⟩
      have hq' := (hs.mem_placements_iff.mp hplaced).2.1
      change q'.id = p at hid
      subst hid
      cases hq.symm.trans hq'
      exact ⟨q, n, hg, hmodules, hs, hsink, hstereo, hinput, hplaced, hcount.trans hin⟩

namespace Stereo

variable {sink q : Module} {n : Node}

/-- The own cells lie in the state array and depend on nothing else. -/
lemma memoryOf_congr {layout : Layout} (h : v.cells = w.cells) :
    g.memoryOf layout v = g.memoryOf layout w := by
  funext id
  simp only [memoryOf, Machine.own, Machine.slice, h]

/-- **A sample of a voice**, as its machine inside a session sees it.  Whatever the registers hold
at its start, they hold the signal of the module that feeds the sink at its end. -/
theorem play (h : Stereo g modules sink q n)
    (hhost : g.VoiceHonoured (Layout.ofModules modules) host voice react)
    (hfocus : s.focus = some v) (hlength : v.cells.length = (Layout.ofModules modules).size)
    (hcursor : v.cursor = 0) (hbefore : g.memoryOf (Layout.ofModules modules) v = before) :
    ∃ w, v.run (s.localHost host voice) g.statements = some w ∧
      Midway before (evaluate react before modules).memory (evaluate react before modules).signals
        (placements modules) [] w ∧
      Activates (s.localHost host voice) before (evaluate react before modules).signals q n
        g.statements v ∧
      [w.left, w.right] = (evaluate react before modules).signals q.id := by
  have hlocal := hhost.local hfocus
  have hsolves : g.Solves react before (evaluate react before modules).signals
      (evaluate react before modules).memory := h.schedule.solves_evaluate before
  have hholds : g.Holds (Layout.ofModules modules) before v := by
    rw [← hbefore]
    exact holds_memoryOf hlength
  have hrewind : v.rewind = v := by rw [Machine.rewind, ← hcursor]
  rcases h.schedule.finish h.wellFormed hlocal hsolves hholds with ⟨w, hrun, hend, hactivates⟩
  rcases h.schedule.sample h.wellFormed hlocal hsolves hholds with ⟨w', hrun', -, -, -, hsink⟩
  cases hrun.symm.trans hrun'
  rw [Machine.sample, hrewind] at hrun
  rw [hrewind] at hactivates
  rw [statements_eq h.scheduled]
  refine ⟨w, hrun, hend, hactivates q n h.placed, ?_⟩
  -- the sink is empty and takes two channels, so both registers are what it is fed
  have hregisters := hsink sink h.member (by rw [h.stereo]; rfl)
  rw [Module.inChannels, h.stereo, Module.inputSignal, h.input] at hregisters
  exact hregisters

end Stereo

/-! ## Playing -/

/-- What a voice leaves, read off the equations of its graph over the cells it finds. -/
structure IsTake (modules : List Module) (react : ModuleId → Reaction α) (before : Memory α)
    (q : Module) (σ : Type) (take : Take α) : Prop where
  cells : ∀ w : Machine α σ, Midway before (evaluate react before modules).memory
    (evaluate react before modules).signals (placements modules) [] w → w.cells = take.cells
  output : (evaluate react before modules).signals q.id = [take.left, take.right]

/-- **A voice plays** in a session whose `v` is its state array.  After each of its statements `v`
is the same array, every other array is as it was, and so is the mix.  The module that feeds the
sink computes what the voice leaves in the registers, and it is the signal that the equations of the
graph have for that module, over the cells that the voice finds. -/
structure Plays (g : Graph) (layout : Layout) (host : ScriptHost α σ) (voice : Nat)
    (react : ModuleId → Reaction α) (s : Session α σ) (v : Machine α σ) (take : Take α) : Prop where
  within : ∀ first second, g.statements = first ++ second →
    ∃ t, s.run host (first.map (.step voice)) = some t ∧ t.active = s.active ∧
      (∀ place, s.active ≠ some place → t.arrays[place]? = s.arrays[place]?) ∧
      t.mixLeft = s.mixLeft ∧ t.mixRight = s.mixRight
  output : ∃ sink q first second t u signals after,
    g.get? .sink = some sink ∧ g.get? q.id = some q ∧ sink.mainInput = some q.id ∧
    g.statements = first ++ .fragment q.id q.definition :: second ∧
    s.run host (first.map (.step voice)) = some t ∧
    t.exec host (.step voice (.fragment q.id q.definition)) = some u ∧
    u.left = take.left ∧ u.right = take.right ∧
    g.Solves react (g.memoryOf layout v) signals after ∧ signals q.id = [take.left, take.right]

namespace Stereo

variable {sink q : Module} {n : Node}

lemma exists_isTake (h : Stereo g modules sink q n)
    (hhost : g.VoiceHonoured (Layout.ofModules modules) host voice react)
    (hfocus : s.focus = some v) (hlength : v.cells.length = (Layout.ofModules modules).size)
    (hcursor : v.cursor = 0) :
    ∃ take, IsTake modules react (g.memoryOf (Layout.ofModules modules) v) q σ take := by
  rcases h.play hhost hfocus hlength hcursor rfl with ⟨w, -, hend, -, houtput⟩
  exact ⟨⟨w.cells, w.left, w.right⟩, fun w' hend' => hend'.cells_eq hend, houtput.symm⟩

/-- **A compiled voice keeps to itself.** -/
theorem settles (h : Stereo g modules sink q n)
    (hhost : g.VoiceHonoured (Layout.ofModules modules) host voice react)
    (hlength : v.cells.length = (Layout.ofModules modules).size)
    (htake : IsTake modules react (g.memoryOf (Layout.ofModules modules) v) q σ take) :
    Settles host voice g.statements v.cells take := by
  intro s' v' hfocus hcells hcursor
  rcases h.play hhost hfocus (by rw [hcells]; exact hlength) hcursor (memoryOf_congr hcells) with
    ⟨w, hrun, hend, -, houtput⟩
  rw [htake.output, List.cons.injEq, List.cons.injEq] at houtput
  exact ⟨w, Session.run_of_local hfocus hrun, htake.cells w hend, houtput.1, houtput.2.1⟩

theorem plays (h : Stereo g modules sink q n)
    (hhost : g.VoiceHonoured (Layout.ofModules modules) host voice react)
    (hfocus : s.focus = some v) (hlength : v.cells.length = (Layout.ofModules modules).size)
    (hcursor : v.cursor = 0)
    (htake : IsTake modules react (g.memoryOf (Layout.ofModules modules) v) q σ take) :
    g.Plays (Layout.ofModules modules) host voice react s v take := by
  rcases h.play hhost hfocus hlength hcursor rfl with ⟨w, hrun, -, hactivates, -⟩
  constructor
  · intro first second hsplit
    rw [hsplit, Machine.run_append, Option.bind_eq_some_iff] at hrun
    rcases hrun with ⟨u, hu, -⟩
    exact ⟨s.absorb u, Session.run_of_local hfocus hu, rfl, fun place => s.arrays_absorb_of_ne u,
      rfl, rfl⟩
  · rcases hactivates with ⟨first, second, t, u, hsplit, hfirst, hact⟩
    have houtput : [u.left, u.right] = [take.left, take.right] := by
      have := hact.output
      rw [h.outChannels, htake.output] at this
      exact this
    rw [List.cons.injEq, List.cons.injEq] at houtput
    exact ⟨sink, q, first, second, _, _, _, _, h.member,
      (h.schedule.mem_placements_iff.mp h.placed).2.1, h.input, hsplit,
      Session.run_of_local hfocus hfirst, Session.exec_step_of_local hfocus hact.exec, houtput.1,
      houtput.2.1, h.schedule.solves_evaluate _, htake.output⟩

end Stereo

/-- **A voice performs.**  On the given array it leaves the same in every session, alone or with
others and whatever the registers hold, and it plays there. -/
structure Performs (g : Graph) (layout : Layout) (host : ScriptHost α σ) (voice : Nat)
    (react : ModuleId → Reaction α) (cells : List α) (take : Take α) : Prop where
  settles : Settles host voice g.statements cells take
  plays : ∀ (s : Session α σ) (v : Machine α σ), s.focus = some v → v.cells = cells →
    v.cursor = 0 → g.Plays layout host voice react s v take

/-- A compiled voice performs. -/
theorem exists_performs (hg : g.Reachable) {patch : Patch} (hpatch : g.compile = .ok patch)
    (hsink : ∃ sink, g.get? .sink = some sink ∧ sink.definition = .sink)
    (hhost : g.VoiceHonoured patch.layout host voice react) {cells : List α}
    (hlength : cells.length = patch.stateSize) (s : Session α σ) :
    ∃ take, g.Performs patch.layout host voice react cells take := by
  rcases compile_eq_ok_iff.mp hpatch with ⟨modules, hmodules, rfl⟩
  rcases hsink with ⟨sink, hsink, hstereo⟩
  rcases exists_stereo hg.wellFormed hmodules hsink hstereo with ⟨q, n, h⟩
  -- one session with the array in it shows what the voice leaves in all of them
  have hfocus : ({ s with arrays := [cells], active := some 0, cursor := 0 } : Session α σ).focus =
      some ⟨cells, 0, s.left, s.right, s.rest⟩ := rfl
  rcases h.exists_isTake hhost hfocus hlength rfl with ⟨take, htake⟩
  refine ⟨take, h.settles hhost hlength htake, ?_⟩
  rintro s' v' hfocus' rfl hcursor'
  exact h.plays hhost hfocus' hlength hcursor' (Stereo.memoryOf_congr rfl ▸ htake)

/-! ## All voices -/

lemma compileAll_eq_ok :
    ∀ {graphs : List Graph} {patches : List Patch}, Config.compileAll graphs = .ok patches →
      List.Forall₂ (fun g patch => g.compile = .ok patch) graphs patches := by
  intro graphs
  induction graphs with
  | nil =>
      rintro patches h
      cases pure_eq_ok_iff.mp h
      exact .nil
  | cons g graphs ih =>
      intro patches h
      rw [Config.compileAll, List.mapM_cons, bind_eq_ok_iff] at h
      rcases h with ⟨patch, hpatch, h⟩
      rcases bind_eq_ok_iff.mp h with ⟨rest, hrest, h⟩
      cases pure_eq_ok_iff.mp h
      exact .cons hpatch (ih hrest)

lemma compile_of_getElem? {graphs : List Graph} {patches : List Patch}
    (h : List.Forall₂ (fun g patch => g.compile = .ok patch) graphs patches) {patch : Patch}
    (hg : graphs[voice]? = some g) (hpatch : patches[voice]? = some patch) :
    g.compile = .ok patch := by
  rcases List.getElem?_eq_some_iff.mp hg with ⟨hlt, rfl⟩
  rcases List.getElem?_eq_some_iff.mp hpatch with ⟨hlt', rfl⟩
  exact (List.forall₂_iff_get.mp h).2 voice hlt hlt'

/-- The code of the combined patches is the text of the script of their programs. -/
lemma code_combine {graphs : List Graph} {patches : List Patch}
    (h : List.Forall₂ (fun g patch => g.compile = .ok patch) graphs patches) (config : Config) :
    (config.combine (patches.map Patch.voice)).code =
      String.join ((script (graphs.map statements)).map (·.render config)) := by
  have hcodes : patches.map (·.code) = (graphs.map statements).map renderProgram := by
    induction h with
    | nil => rfl
    | cons hpatch _ ih => rw [List.map_cons, ih, code_eq hpatch]; rfl
  rw [render_script]
  show String.join _ = String.join _
  congr 1
  apply List.ext_getElem?
  intro voice
  have hvoice := congrArg (fun codes => (codes[voice]?).map (config.wrap voice)) hcodes
  simp only [List.getElem?_map, Option.map_map] at hvoice
  simp only [List.getElem?_mapIdx, List.getElem?_map, Option.map_map]
  exact hvoice

/-- **What the script of compiled voices does** on its way from `s` to `t`. -/
structure Mixes (host : ScriptHost α σ) (react : Nat → ModuleId → Reaction α)
    (graphs : List Graph) (patches : List Patch) (s t : Session α σ) (takes : List (Take α)) :
    Prop where
  length : takes.length = graphs.length
  /-- Every voice changes its own array, and arrays without a voice stay. -/
  arrays : ∀ voice, t.arrays[voice]? =
    if voice < graphs.length then takes[voice]?.map (·.cells) else s.arrays[voice]?
  /-- The mix gets the outputs of the voices, in the order of the voices. -/
  left : t.mixLeft = takes.foldl (fun sum take => host.add sum take.left) s.mixLeft
  right : t.mixRight = takes.foldl (fun sum take => host.add sum take.right) s.mixRight
  /-- A voice performs on the array that the script is started with, and it still finds this array
  when its turn comes. -/
  voices : ∀ (voice : Nat) (g : Graph) (take : Take α), graphs[voice]? = some g →
    takes[voice]? = some take → ∃ patch cells, patches[voice]? = some patch ∧
      s.arrays[voice]? = some cells ∧
      g.Performs patch.layout host voice (react voice) cells take ∧
      ∃ u v, s.run host (script ((graphs.take voice).map statements) ++ [.select voice]) = some u ∧
        u.active = some voice ∧ u.focus = some v ∧ v.cells = cells ∧ v.cursor = 0

section

variable {graphs : List Graph} {patches : List Patch} {react : Nat → ModuleId → Reaction α}

lemma exists_takes
    (hgraphs : ∀ g ∈ graphs, g.Reachable ∧
      ∃ sink, g.get? .sink = some sink ∧ sink.definition = .sink)
    (hpatches : List.Forall₂ (fun g patch => g.compile = .ok patch) graphs patches)
    (hhost : ∀ (voice : Nat) (g : Graph) (patch : Patch), graphs[voice]? = some g →
      patches[voice]? = some patch → g.VoiceHonoured patch.layout host voice (react voice))
    (hs : ∀ (voice : Nat) (patch : Patch), patches[voice]? = some patch →
      ∃ cells, s.arrays[voice]? = some cells ∧ cells.length = patch.stateSize) :
    ∃ takes : List (Take α), takes.length = graphs.length ∧
      ∀ (voice : Nat) (g : Graph) (take : Take α), graphs[voice]? = some g →
        takes[voice]? = some take → ∃ patch cells, patches[voice]? = some patch ∧
          s.arrays[voice]? = some cells ∧
          g.Performs patch.layout host voice (react voice) cells take := by
  have hvoice : ∀ k : Fin graphs.length, ∃ (take : Take α) (patch : Patch) (cells : List α),
      patches[k.val]? = some patch ∧ s.arrays[k.val]? = some cells ∧
      graphs[k].Performs patch.layout host k (react k) cells take := by
    intro k
    have hg : graphs[k.val]? = some graphs[k] := List.getElem?_eq_getElem k.isLt
    have hlt : k.val < patches.length := hpatches.length_eq ▸ k.isLt
    have hpatch := List.getElem?_eq_getElem hlt
    rcases hs k _ hpatch with ⟨cells, hcells, hlength⟩
    rcases hgraphs _ (List.mem_of_getElem? hg) with ⟨hreachable, hsink⟩
    rcases exists_performs hreachable (compile_of_getElem? hpatches hg hpatch) hsink
      (hhost k _ _ hg hpatch) hlength s with ⟨take, htake⟩
    exact ⟨take, _, cells, hpatch, hcells, htake⟩
  choose take htake using hvoice
  refine ⟨List.ofFn take, List.length_ofFn, ?_⟩
  intro voice g take' hg htake'
  rcases List.getElem?_eq_some_iff.mp hg with ⟨hlt, rfl⟩
  rw [List.getElem?_ofFn, dif_pos hlt] at htake'
  cases htake'
  exact htake ⟨voice, hlt⟩

/-- **The script of any number of compiled voices is correct.**  Take graphs that can come about,
compile, and end in the stereo sink; a host that keeps the contracts of all fragments; and a session
with a state array for every voice, whatever `v`, the cursor and the registers are.  Then the
combined code is the text of the script, and the script has a result.

* Each voice leaves in its array what it leaves there when its program is run in any other session,
  alone or not, with the cursor at the first cell of the same array.  Other arrays stay as they are.
* Both channels of the mix get the outputs of the voices, in the order of the voices.
* When its turn comes, a voice finds its array as it was at the start.  While it runs, `v` stays its
  array, and no other array and nothing of the mix changes.  Its output is what the fragment of the
  module that feeds its sink has left in the registers, which is the signal of that module by the
  equations of the graph. -/
theorem mixdown_correct
    (hgraphs : ∀ g ∈ graphs, g.Reachable ∧
      ∃ sink, g.get? .sink = some sink ∧ sink.definition = .sink)
    (hpatches : Config.compileAll graphs = .ok patches)
    (hhost : ∀ (voice : Nat) (g : Graph) (patch : Patch), graphs[voice]? = some g →
      patches[voice]? = some patch → g.VoiceHonoured patch.layout host voice (react voice))
    (s : Session α σ)
    (hs : ∀ (voice : Nat) (patch : Patch), patches[voice]? = some patch →
      ∃ cells, s.arrays[voice]? = some cells ∧ cells.length = patch.stateSize) :
    (∀ config : Config, (config.combine (patches.map Patch.voice)).code =
      String.join ((script (graphs.map statements)).map (·.render config))) ∧
    ∃ t takes, s.run host (script (graphs.map statements)) = some t ∧
      Mixes host react graphs patches s t takes := by
  have hall := compileAll_eq_ok hpatches
  refine ⟨code_combine hall, ?_⟩
  rcases exists_takes hgraphs hall hhost hs with ⟨takes, hlength, htakes⟩
  have hsettles : ∀ voice program take, (graphs.map statements)[voice]? = some program →
      takes[voice]? = some take →
      ∃ cells, s.arrays[voice]? = some cells ∧ Settles host voice program cells take := by
    intro voice program take hprogram htake
    rw [List.getElem?_map] at hprogram
    rcases Option.map_eq_some_iff.mp hprogram with ⟨g, hg, rfl⟩
    rcases htakes voice g take hg htake with ⟨patch, cells, -, hcells, hperforms⟩
    exact ⟨cells, hcells, hperforms.settles⟩
  have hcount : (graphs.map statements).length = graphs.length := List.length_map _
  have hrun := Session.run_script (hlength.trans hcount.symm) hsettles
  rcases hrun graphs.length (Nat.le_of_eq hcount.symm) with ⟨t, ht, harrays, hleft, hright⟩
  rw [List.take_of_length_le (Nat.le_of_eq hcount)] at ht
  rw [List.take_of_length_le (Nat.le_of_eq hlength)] at hleft hright
  refine ⟨t, takes, ht, hlength, harrays, hleft, hright, ?_⟩
  intro voice g take hg htake
  rcases htakes voice g take hg htake with ⟨patch, cells, hpatch, hcells, hperforms⟩
  refine ⟨patch, cells, hpatch, hcells, hperforms, ?_⟩
  have hlt := (List.getElem?_eq_some_iff.mp hg).1
  rcases hrun voice (by omega) with ⟨u, hu, harrays, -, -⟩
  have hcells' : u.arrays[voice]? = some cells := by
    rw [harrays, if_neg (Nat.lt_irrefl voice), hcells]
  rw [← List.map_take] at hu
  refine ⟨u.turnTo voice, _, ?_, rfl, Session.focus_turnTo hcells', rfl, rfl⟩
  rw [Session.run_append_of_eq hu, Session.run_cons_of_eq (Session.exec_select hcells')]
  rfl

end

/-! ## Hosts that keep the contracts -/

/-- Hosts of single voices, put to work on the array that `v` is. -/
def hostOfVoices (hosts : Nat → Host α σ) (add : α → α → α) : ScriptHost α σ where
  fragment voice owner d s := do
    let v ← s.focus
    let w ← hosts voice owner d v
    return s.absorb w
  add := add

/-- What keeps its contract on a machine keeps it in a session. -/
lemma AllHonoured.voiceHonoured {hosts : Nat → Host α σ} {layout : Layout}
    (h : g.AllHonoured layout (hosts voice) react) (add : α → α → α) :
    g.VoiceHonoured layout (hostOfVoices hosts add) voice react := by
  intro id m n hlive hm hn s v hfocus hlength hcursor
  rcases h id m n hlive hm hn v hlength hcursor with ⟨w, hexec, hreacts⟩
  refine ⟨w, ?_, hreacts⟩
  rw [Machine.exec] at hexec
  rw [Session.fragment]
  split_ifs at hexec ⊢ with hcode
  · cases hexec
    rw [Session.absorb_focus hfocus]
  · simp [hostOfVoices, hfocus, hexec]

lemma exists_demo_patch :
    ∃ patch, demo.compile = .ok patch ∧ patch.stateSize = 8 ∧
      demo.AllHonoured patch.layout (Host.perform demoReact : Host Rat Unit) demoReact := by
  have hsize : demo.compile.toOption.map (·.stateSize) = some 8 := by decide +kernel
  rcases exists_ok_of_map hsize with ⟨patch, hcompile, hsize⟩
  rcases compile_eq_ok_iff.mp hcompile with ⟨modules, hmodules, rfl⟩
  have hwf := demo_reachable.wellFormed
  have hs := (scheduled_spec hwf.id_eq).1 modules hmodules
  exact ⟨_, hcompile, hsize, hs.allHonoured_perform hwf demo_fitsSizes demo_empty⟩

lemma demo_stereo : ∃ sink, demo.get? .sink = some sink ∧ sink.definition = .sink := by
  rcases demo_reachable.wellFormed.sink with ⟨sink, hsink, -⟩
  refine ⟨sink, hsink, ?_⟩
  rcases demo_definition hsink with ⟨-, hd⟩ | ⟨hid | hid, -⟩ | ⟨hid, -⟩ | ⟨hid, -⟩
  · exact hd
  all_goals cases hid

/-- The host that runs every voice of the demo patch by the reactions of its modules. -/
def demoHost : ScriptHost Rat Unit := hostOfVoices (fun _ => Host.perform demoReact) (· + ·)

/-- Two voices of the demo patch in different states, with `v` nowhere and the rest of an earlier
run in the cursor and in the registers. -/
def demoSession : Session Rat Unit where
  arrays := [demoVoice.cells, [1 / 3, 1 / 2, 1 / 4, 1 / 5, 0, 1 / 8, 0, 0]]
  active := none
  cursor := 5
  left := 7
  right := -7
  mixLeft := 0
  mixRight := 0
  rest := ()

/-- The script of the two voices adds both outputs to the mix. -/
theorem mixdown_correct_demo :
    ∃ patch, Config.compileAll [demo, demo] = .ok [patch, patch] ∧
      ∃ t a b, demoSession.run demoHost (script [demo.statements, demo.statements]) = some t ∧
        t.arrays[0]? = some (Take.cells a) ∧ t.arrays[1]? = some (Take.cells b) ∧
        t.mixLeft = 0 + a.left + b.left ∧ t.mixRight = 0 + a.right + b.right := by
  rcases exists_demo_patch with ⟨patch, hpatch, hsize, hhost⟩
  have hpatches : Config.compileAll [demo, demo] = .ok [patch, patch] := by
    rw [Config.compileAll, List.mapM_cons, List.mapM_cons, hpatch]
    rfl
  have hhosts : ∀ (voice : Nat) (g : Graph) (patch' : Patch), [demo, demo][voice]? = some g →
      [patch, patch][voice]? = some patch' →
      g.VoiceHonoured patch'.layout demoHost voice demoReact := by
    intro voice g patch' hg hpatch'
    have hg : g = demo := by simpa using List.mem_of_getElem? hg
    have hpatch' : patch' = patch := by simpa using List.mem_of_getElem? hpatch'
    rw [hg, hpatch']
    exact hhost.voiceHonoured _
  have harrays : ∀ (voice : Nat) (patch' : Patch), [patch, patch][voice]? = some patch' →
      ∃ cells, demoSession.arrays[voice]? = some cells ∧ cells.length = patch'.stateSize := by
    intro voice patch' hpatch'
    have hpatch'' : patch' = patch := by simpa using List.mem_of_getElem? hpatch'
    rw [hpatch'', hsize]
    match voice, hpatch' with
    | 0, _ => exact ⟨_, rfl, rfl⟩
    | 1, _ => exact ⟨_, rfl, rfl⟩
  rcases (mixdown_correct (by simpa using ⟨demo_reachable, demo_stereo⟩) hpatches hhosts
    demoSession harrays).2 with ⟨t, takes, hrun, hmixes⟩
  rcases List.length_eq_two.mp hmixes.length with ⟨a, b, rfl⟩
  exact ⟨patch, hpatches, t, a, b, hrun, hmixes.arrays 0, hmixes.arrays 1, hmixes.left,
    hmixes.right⟩

end Graph

end Patchbay
