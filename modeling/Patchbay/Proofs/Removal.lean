import Patchbay.Proofs.DeadModules
import Patchbay.Proofs.Rewiring

/-!
# Adding a module and taking it back

A module that is added, wired to others in whatever way and then removed leaves no trace but an
empty place in the arena.  Connections bind free slots only, so the slots that a removal frees are
those that were bound to the module since it was added.

* `Graph.Edit.Involves` — the connections that a module takes part in.
* `Graph.without_eq_of_plug` — **such a connection changes nothing of the graph without the
  module**, and `Graph.without_applyAll`: nor does a run of them.
* `Graph.without_push` — the graph without a module just added.
* `Graph.add_wire_remove` — **adding, wiring and removing a module is undone exactly.**
-/

namespace Patchbay

/-! ## Slots bound since -/

lemma Module.release_none (target : ModuleId) : release target none = none := rfl

lemma Module.release_self (target : ModuleId) : release target (some target) = none := if_pos rfl

/-- A free slot that is bound to a producer is free again when the producer has gone. -/
lemma Module.clearReferences_assign {m : Module} {slot : Slot} {target : ModuleId}
    (hnames : (m.params.map (·.name)).Nodup) (hfree : m.bound? slot = none) :
    (m.assign (some target) slot).clearReferences target = m.clearReferences target := by
  cases slot with
  | input =>
      have hinput : m.mainInput = none := hfree
      simp only [assign, setMainInput, clearReferences, hinput, release_self, release_none]
  | param name =>
      simp only [assign, clearReferences, List.map_map]
      congr 1
      refine List.map_congr_left fun p hp => ?_
      by_cases hname : p.name = name
      · subst hname
        have hbinding : p.binding = none := (bound?_param hnames hp).symm.trans hfree
        simp [hbinding, release_self, release_none]
      · simp [hname]

namespace Graph

variable {g h : Graph} {j : Jack} {p id : ModuleId} {m : Module}

/-! ## The graph without a module -/

/-- The connections that a module takes part in, as the producer or as the consumer. -/
def Edit.Involves (id : ModuleId) : Edit → Prop
  | .connect source target => source = id ∨ target = id
  | .connectParam source target _ => source = id ∨ target = id
  | _ => False

lemma Edit.Involves.exists_plug : ∀ {e : Edit}, e.Involves id →
    ∃ (j : Jack) (p : ModuleId), e = j.plug p ∧ (p = id ∨ j.owner = id)
  | .connect source target, he => ⟨⟨target, .input⟩, source, rfl, he⟩
  | .connectParam source target param, he => ⟨⟨target, .param param⟩, source, rfl, he⟩

/-- **A connection that a module takes part in** changes nothing of the graph without the module: it
is about the module itself, or it binds a free slot to it. -/
theorem without_eq_of_plug (hg : g.WellFormed) (hj : g.apply (j.plug p) = .ok h)
    (hid : p = id ∨ j.owner = id) : h.without id = g.without id := by
  obtain ⟨⟨m, hm, -, -, hfree⟩, rfl⟩ := (plug_eq_ok_iff hg).mp hj
  refine ext_get? rfl rfl (by simp [without, assign, modifyModule]) fun other => ?_
  rw [get?_without, get?_without, assign, get?_modifyModule]
  by_cases hother : other = id
  · simp [hother]
  · by_cases howner : j.owner = other
    · subst howner
      obtain rfl : p = id := hid.resolve_right hother
      simp [hother, hm, Module.clearReferences_assign (hg.params_nodup hm) hfree]
    · simp [howner]

lemma get?_of_plug (hg : g.WellFormed) (hj : g.apply (j.plug p) = .ok h)
    (hid : ∃ m, g.get? id = some m) : ∃ m, h.get? id = some m := by
  obtain ⟨-, rfl⟩ := (plug_eq_ok_iff hg).mp hj
  rcases hid with ⟨m, hm⟩
  rw [assign, get?_modifyModule]
  split_ifs
  · exact ⟨_, by rw [hm]; rfl⟩
  · exact ⟨m, hm⟩

/-- **A run of such connections**, some of which may be refused, keeps the module and changes
nothing of the graph without it. -/
theorem without_applyAll :
    ∀ {edits : List Edit} {g : Graph}, g.Reachable → (∀ e ∈ edits, e.Involves id) →
      (∃ m, g.get? id = some m) →
      (g.applyAll edits).without id = g.without id ∧ ∃ m, (g.applyAll edits).get? id = some m
  | [], _, _, _, hid => ⟨rfl, hid⟩
  | e :: edits, g, hg, hedits, hid => by
      have hrest : ∀ e ∈ edits, e.Involves id := fun e he => hedits e (List.mem_cons_of_mem _ he)
      rcases (hedits e (List.mem_cons_self ..)).exists_plug with ⟨j, p, rfl, hends⟩
      rw [applyAll, List.foldl_cons]
      cases hj : g.apply (j.plug p) with
      | error x =>
          rw [next_of_error hj]
          exact without_applyAll hg hrest hid
      | ok h =>
          have hwf := hg.wellFormed
          rw [next_of_ok hj, ← without_eq_of_plug hwf hj hends]
          exact without_applyAll (hg.apply hj) hrest (get?_of_plug hwf hj hid)

/-- The graph with one more empty place. -/
def withGap (g : Graph) : Graph := { g with arena := g.arena.push none }

lemma get?_withGap (g : Graph) (id : ModuleId) : g.withGap.get? id = g.get? id := by
  rcases id with ⟨k⟩
  simp only [get?, withGap, Array.getElem?_push]
  split_ifs with hk
  · simp [hk]
  · rfl

/-- The graph without a module just added has an empty place for it, for no slot was bound to it. -/
lemma without_push (hg : g.WellFormed) (m : Module) :
    ({ g with arena := g.arena.push (some m) } : Graph).without g.nextId = g.withGap := by
  refine ext_get? rfl rfl (by simp [without, withGap]) fun id => ?_
  rw [get?_without, get?_withGap, get?_push]
  by_cases hid : id = g.nextId
  · simp [hid, get?_nextId]
  · rw [if_neg hid, if_neg hid]
    cases hm : g.get? id with
    | none => rfl
    | some m' =>
        have hnot : g.nextId ∉ m'.producers := by
          intro hp
          rcases hg.exists_of_mem_producers hm hp with ⟨q, hq, -⟩
          simp [get?_nextId] at hq
        rw [Option.map_some, Module.clearReferences_of_not_mem hnot]

lemma nextId_ne_sink (hg : g.WellFormed) : g.nextId ≠ .sink := by
  intro heq
  rcases hg.sink with ⟨m, hm, -⟩
  simp [← heq, get?_nextId] at hm

/-- **Adding, wiring and removing a module is undone exactly.**  Take a graph that can come about
and add a module of any definition of its catalog.  After any run of connections that the new module
takes part in, as producer, as consumer or as both, refused ones included, the module can be
removed.  This leads to the graph as it was with one more empty place: every module is what it was,
the new one is none, and compiling gives the same patch or the same error. -/
theorem add_wire_remove (hg : g.Reachable) {name : String} {d : Definition}
    (hd : g.catalog.get? name = some d) :
    ∃ g₁, g.add name = .ok g₁ ∧ g₁.get? g.nextId = some (.instantiate g.nextId d) ∧
      ∀ edits : List Edit, (∀ e ∈ edits, e.Involves g.nextId) →
        ∃ h, (g₁.applyAll edits).remove g.nextId = .ok h ∧
          h = { g with arena := g.arena.push none } ∧
          (∀ id m, g.get? id = some m → h.get? id = some m) ∧ h.get? g.nextId = none ∧
          h.compile = g.compile := by
  have hadd := add_eq_ok_iff.mpr ⟨d, hd, rfl⟩
  refine ⟨_, hadd, by rw [get?_push, if_pos rfl], ?_⟩
  intro edits hedits
  have hwf := hg.wellFormed
  have hadded := hg.apply (e := .add name) hadd
  rcases without_applyAll hadded hedits ⟨_, by rw [get?_push, if_pos rfl]⟩ with ⟨hwithout, hmember⟩
  rw [without_push hwf] at hwithout
  have hremove := remove_eq_ok_iff.mpr ⟨hmember, nextId_ne_sink hwf, rfl⟩
  have hgap : g.withGap.WellFormed := by
    rw [← hwithout]
    exact ((hadded.applyAll edits).apply (e := .remove g.nextId) hremove).wellFormed
  refine ⟨_, hremove, hwithout, ?_, ?_, ?_⟩
  · intro id m hm
    rw [hwithout, get?_withGap, hm]
  · rw [hwithout, get?_withGap, get?_nextId]
  · rw [hwithout]
    exact compile_congr hwf hgap fun id _ => get?_withGap g id

/-- The connections of an oscillator that modulates the demo patch in two places, and itself. -/
def demoTuning : List Edit :=
  [.connectParam ⟨6⟩ ⟨1⟩ "freq", .connectParam ⟨6⟩ ⟨6⟩ "freq", .connectParam ⟨6⟩ ⟨2⟩ "pos"]

/-- While the new oscillator is there, the demo patch feeds back; without it, the patch compiles as
it did before. -/
theorem add_wire_remove_demo :
    ∃ g₁ g₂ h, demo.add "Oscillator/Sawtooth" = .ok g₁ ∧ g₁.applyEach demoTuning = .ok g₂ ∧
      g₂.compile = .error (.cycle "Sawtooth") ∧ g₂.remove demo.nextId = .ok h ∧
      h.compile = demo.compile := by
  have hd : demo.catalog.get? "Oscillator/Sawtooth" = some demoSawtooth := by decide +kernel
  have hnext : demo.nextId = ⟨6⟩ := by decide +kernel
  rcases add_wire_remove demo_reachable hd with ⟨g₁, hadd, -, hback⟩
  rcases hback demoTuning (by simp [demoTuning, Edit.Involves, hnext]) with
    ⟨h, hremove, -, -, -, hcompile⟩
  have hg₁ : g₁ = demo.applyAll [.add "Oscillator/Sawtooth"] := by
    simp [applyAll, next_of_ok (e := .add "Oscillator/Sawtooth") hadd]
  refine ⟨g₁, _, h, hadd, ?_, ?_, hremove, hcompile⟩
  · rw [hg₁]
    decide +kernel
  · rw [hg₁]
    decide +kernel

end Graph

end Patchbay
