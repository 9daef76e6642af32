import Patchbay.Proofs.Mirror

/-!
# Modules that the sink does not need

A module is dead if no slots lead to it from the sink.  Compiling never looks at a dead module, so
whatever is done to dead modules is without effect on the patch and on the error there is instead of
one.

* `Graph.Edit.subject?` — the module that an edit is about.
* `Graph.get?_apply` — **an edit changes its subject and what is bound to its subject**, and nothing
  else.
* `Graph.get?_applyAll_of_live` — hence a run of edits of dead modules leaves the others alone.
* `Graph.compile_congr` — graphs with the same live modules compile to the same.
* `Graph.dead_modules_inert` — **dead modules are inert.**
-/

namespace Patchbay

/-! ## The handles stay -/

lemma Param.relabel_id : Param.relabel id = id := by
  funext p
  simp [Param.relabel]

@[simp] lemma module_relabel_id (m : Module) : m.relabel id = m := by
  simp [Module.relabel, Param.relabel_id]

@[simp] lemma Patch.relabel_id (p : Patch) : p.relabel id = p := by
  have hnodes : p.layout.nodes.map (Node.relabel id) = p.layout.nodes := List.map_id _
  simp [Patch.relabel, Schedule.relabel, Layout.relabel, hnodes]

/-- A module that is not bound to a producer does not notice that it goes. -/
lemma Module.clearReferences_of_not_mem {m : Module} {target : ModuleId}
    (h : target ∉ m.producers) : m.clearReferences target = m := by
  have hrelease : ∀ binding : Option ModuleId, binding ≠ some target →
      release target binding = binding := fun _ hne => if_neg hne
  have hmain : release target m.mainInput = m.mainInput :=
    hrelease _ fun hp => h (mem_producers_iff.mpr (Or.inl hp))
  have hparams : (m.params.map fun p => { p with binding := release target p.binding }) =
      m.params := by
    refine (List.map_congr_left fun p hp => ?_).trans (List.map_id _)
    rw [hrelease _ fun heq => h (mem_producers_iff.mpr (Or.inr ⟨p, hp, heq⟩))]
    rfl
  simp only [clearReferences, hmain, hparams]

namespace Graph

variable {g h : Graph} {id : ModuleId} {m : Module}

/-! ## What an edit leaves alone -/

/-- The module that an edit is about: the one that is removed or changed. -/
def Edit.subject? : Edit → Option ModuleId
  | .add _ | .setName _ => none
  | .remove id | .rename id _ | .setParam id _ _ => some id
  | .connect _ target | .connectParam _ target _ => some target
  | .disconnect target | .disconnectParam target _ => some target

lemma get?_modifyModule_of_ne {target : ModuleId} (change : Module → Module)
    (h : some target ≠ some id) : (g.modifyModule target change).get? id = g.get? id := by
  rw [get?_modifyModule, if_neg (fun heq => h (congrArg some heq))]

/-- **An edit changes its subject and what is bound to its subject**, and nothing else. -/
theorem get?_apply {e : Edit} (he : g.apply e = .ok h) (hm : g.get? id = some m)
    (hself : e.subject? ≠ some id) (hproducers : ∀ p ∈ m.producers, e.subject? ≠ some p) :
    h.get? id = some m := by
  cases e with
  | add definition =>
      rcases add_eq_ok_iff.mp he with ⟨d, -, rfl⟩
      have hne : id ≠ g.nextId := by
        rintro rfl
        simp [get?_nextId] at hm
      rw [get?_push, if_neg hne, hm]
  | remove target =>
      rcases remove_eq_ok_iff.mp he with ⟨-, -, rfl⟩
      have hne : id ≠ target := fun heq => hself (congrArg some heq.symm)
      have hnot : target ∉ m.producers := fun hp => hproducers target hp rfl
      rw [get?_without, if_neg hne, hm, Option.map_some, Module.clearReferences_of_not_mem hnot]
  | setName name =>
      cases he
      exact hm
  | rename target name =>
      rcases rename_eq_ok_iff.mp he with ⟨-, rfl⟩
      rw [get?_modifyModule_of_ne _ hself, hm]
  | setParam target param value =>
      rcases setParam_eq_ok_iff.mp he with ⟨k, -, rfl⟩
      rw [get?_modifyModule_of_ne _ hself, hm]
  | connect source target =>
      rcases connect_eq_ok_iff.mp he with ⟨_, _, -, -, -, -, -, -, rfl⟩
      rw [get?_modifyModule_of_ne _ hself, hm]
  | connectParam source target param =>
      rcases connectParam_eq_ok_iff.mp he with ⟨_, _, k, -, -, -, -, -, rfl⟩
      rw [get?_modifyModule_of_ne _ hself, hm]
  | disconnect target =>
      rcases disconnect_eq_ok_iff.mp he with ⟨_, -, -, rfl⟩
      rw [get?_modifyModule_of_ne _ hself, hm]
  | disconnectParam target param =>
      rcases disconnectParam_eq_ok_iff.mp he with ⟨k, -, rfl⟩
      rw [get?_modifyModule_of_ne _ hself, hm]

/-- An edit of a dead module leaves the live ones as they are.  Liveness is meant in `g`, and the
edit is one of a graph that has the live modules of `g`. -/
lemma get?_apply_of_live (hg : g.WellFormed) {h h' : Graph}
    (hsame : ∀ id, g.Live id → h.get? id = g.get? id) {e : Edit}
    (hdead : ∀ id, e.subject? = some id → ¬ g.Live id) (he : h.apply e = .ok h') :
    ∀ id, g.Live id → h'.get? id = g.get? id := by
  intro id hlive
  rcases hg.exists_of_live hlive with ⟨m, hm⟩
  rw [hm]
  refine get?_apply he ((hsame id hlive).trans hm) (fun hid => hdead id hid hlive) ?_
  intro p hp hsubject
  exact hdead p hsubject (hlive.tail ((dependsOn_iff hm).mpr hp))

/-- A run of edits of dead modules leaves the live ones as they are. -/
lemma get?_applyAll_of_live (hg : g.WellFormed) (edits : List Edit) :
    ∀ h : Graph, (∀ id, g.Live id → h.get? id = g.get? id) →
      (∀ e ∈ edits, ∀ id, e.subject? = some id → ¬ g.Live id) →
      ∀ id, g.Live id → (h.applyAll edits).get? id = g.get? id := by
  induction edits with
  | nil =>
      intro h hsame _
      exact hsame
  | cons e edits ih =>
      intro h hsame hdead
      refine ih (h.next e) ?_ fun e he => hdead e (List.mem_cons_of_mem _ he)
      cases happly : h.apply e with
      | error _ =>
          rw [next_of_error happly]
          exact hsame
      | ok h' =>
          rw [next_of_ok happly]
          exact get?_apply_of_live hg hsame (hdead e (List.mem_cons_self ..)) happly

/-! ## What compiling looks at -/

/-- Graphs with the same live modules compile to the same. -/
theorem compile_congr (hg : g.WellFormed) (hh : h.WellFormed)
    (hsame : ∀ id, g.Live id → h.get? id = g.get? id) : h.compile = g.compile := by
  have hmirror : Mirrors (fun id => id) g h :=
    ⟨fun _ _ heq => heq, rfl, fun id m hlive hm => by
      rw [hsame id hlive, hm]
      exact congrArg some (module_relabel_id m).symm⟩
  rw [hmirror.compile hg hh.id_eq]
  cases g.compile with
  | error e => rfl
  | ok patch => exact congrArg Except.ok patch.relabel_id

/-- **Dead modules are inert.**  Two graphs that can come about, on whatever catalogs and by
whatever edits, compile to the same patch or fail with the same error if they have the same modules
where the sink of one of them needs one.  So edits of modules that the sink does not need, be they
refused or not, never change the result: modules that are added, removed, renamed, given other
values or other producers, live or dead, themselves included. -/
theorem dead_modules_inert (hg : g.Reachable) :
    (∀ h : Graph, h.Reachable → (∀ id, g.Live id → h.get? id = g.get? id) →
      h.compile = g.compile) ∧
    (∀ edits : List Edit, (∀ e ∈ edits, ∀ id, e.subject? = some id → ¬ g.Live id) →
      (g.applyAll edits).compile = g.compile) := by
  have hwf := hg.wellFormed
  constructor
  · intro h hh hsame
    exact compile_congr hwf hh.wellFormed hsame
  · intro edits hdead
    exact compile_congr hwf (hg.applyAll edits).wellFormed
      (get?_applyAll_of_live hwf edits g (fun _ _ => rfl) hdead)

/-! ## Dead modules of the demo patch -/

/-- A starved pan that feeds on a live oscillator, an oscillator that modulates itself, and a second
pan that comes and goes. -/
def demoDeadEdits : List Edit :=
  [.add "Pan", .connectParam ⟨3⟩ ⟨6⟩ "pos", .rename ⟨6⟩ "Spare", .add "Oscillator/Sawtooth",
   .connectParam ⟨7⟩ ⟨7⟩ "freq", .add "Pan", .connect ⟨7⟩ ⟨8⟩, .remove ⟨8⟩, .setName "Crowded"]

/-- The catalog of another patch, filled in another order from nothing. -/
def demoTwinFillings : List Catalog.Filling :=
  [.registerAll [demoMul, { name := "Noise", inChannels := 0, outChannels := 1 }, demoPan],
   .register .sink, .register demoSawtooth]

/-- The edits of another patch, with a dead module in the place of the one that was taken back. -/
def demoTwinEdits : List Edit :=
  [.add "Oscillator/Sawtooth", .add "Pan", .add "Oscillator/Sawtooth", .add "Mul",
   .add "Noise", .connectParam ⟨3⟩ ⟨4⟩ "gain", .connect ⟨4⟩ .sink, .connect ⟨5⟩ ⟨2⟩,
   .disconnect ⟨2⟩, .connect ⟨1⟩ ⟨2⟩, .connect ⟨2⟩ ⟨4⟩]

def demoTwinStart : Graph :=
  ⟨"", Catalog.empty.fillAll demoTwinFillings,
    #[some ((Module.instantiate .sink .sink).setName sinkDisplayName)]⟩

def demoTwin : Graph := demoTwinStart.applyAll demoTwinEdits

lemma demoTwin_reachable : demoTwin.Reachable :=
  ⟨_, demoTwinStart, demoTwinEdits, ⟨.empty, demoTwinFillings, Or.inl rfl, rfl⟩, rfl, rfl⟩

lemma demo_get?_of_live {id : ModuleId} (hid : demo.Live id) :
    id.index < 6 ∧ demo.get? id ≠ none := by
  rcases demo_reachable.wellFormed.exists_of_live hid with ⟨m, hm⟩
  have hsize : demo.arena.size = 6 := by
    have := congrArg Array.size demo_definitions
    simpa using this
  exact ⟨hsize ▸ Walk.index_lt_of_get? hm, by simp [hm]⟩

/-- The demo patch compiles to the same with dead modules around it, and so does its twin. -/
theorem dead_modules_inert_demo :
    demoTwin.compile = demo.compile ∧ demoTwin.get? ⟨5⟩ ≠ demo.get? ⟨5⟩ ∧
    (demo.applyAll demoDeadEdits).compile = demo.compile ∧
    (demo.applyAll demoDeadEdits).moduleCount = 7 := by
  refine ⟨?_, by decide +kernel, ?_, by decide +kernel⟩
  · refine (dead_modules_inert demo_reachable).1 demoTwin demoTwin_reachable ?_
    intro id hid
    have hsame : ∀ k < 6, demo.get? ⟨k⟩ ≠ none → demoTwin.get? ⟨k⟩ = demo.get? ⟨k⟩ := by
      decide +kernel
    exact hsame id.index (demo_get?_of_live hid).1 (demo_get?_of_live hid).2
  · refine (dead_modules_inert demo_reachable).2 demoDeadEdits ?_
    intro e he id hsubject hid
    have hsubjects : ∀ e ∈ demoDeadEdits, ∀ id ∈ e.subject?, 6 ≤ id.index := by
      decide
    have := hsubjects e he id hsubject
    have := (demo_get?_of_live hid).1
    omega

end Graph

end Patchbay
