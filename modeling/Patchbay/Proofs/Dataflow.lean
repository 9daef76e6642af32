import Patchbay.Proofs.Machine
import Patchbay.Proofs.WalkInvariant
import Mathlib.Data.List.Induction
import Mathlib.Logic.Function.Basic

/-!
# What a graph means

A graph describes one sample as a system of equations, with no order, no cells and no registers in
it: every module that the sink needs reacts to the signal of its main input and to its own cells,
whose bound parameters hold the signals of their producers.  Nothing feeds back into itself, so the
equations determine the sample.

* `Module.inputSignal`, `Module.driven` — what a module is given in a sample.
* `Graph.Solves` — **the equations of a sample.**
* `Snapshot.activate`, `evaluate` — the forward pass over modules in their order.
* `Graph.IsSchedule.solves_evaluate`, `Graph.IsSchedule.solves_unique` — the pass solves the
  equations, and there is no other solution.
-/

namespace Patchbay

/-- The outputs of all modules in a sample. -/
abbrev Signals (α : Type) := ModuleId → List α

/-- The own cells of all modules between samples. -/
abbrev Memory (α : Type) := ModuleId → Cells α

variable {α : Type}

namespace Module

/-- The signal at the main input. -/
def inputSignal (m : Module) (signals : Signals α) : List α := m.mainInput.elim [] signals

/-- The value of a parameter: that of its producer, or the one it has while nothing drives it. -/
def drive (signals : Signals α) (p : Param) (value : α) : α :=
  match p.binding with
  | some producer => (signals producer).headD value
  | none => value

/-- The own cells of a module with the driven parameters in place. -/
def driven (m : Module) (signals : Signals α) (own : Cells α) : Cells α :=
  { own with params := List.zipWith (drive signals) m.params own.params }

/-! Only the signals of its producers reach a module. -/

lemma inputSignal_congr {m : Module} {signals signals' : Signals α}
    (h : ∀ p ∈ m.producers, signals p = signals' p) :
    m.inputSignal signals = m.inputSignal signals' := by
  cases hinput : m.mainInput with
  | none => simp [inputSignal, hinput]
  | some p =>
      have hp : p ∈ m.producers := mem_producers_iff.mpr (Or.inl hinput)
      simpa [inputSignal, hinput] using h p hp

lemma drive_congr {signals signals' : Signals α} {p : Param}
    (h : ∀ producer, p.binding = some producer → signals producer = signals' producer) (a : α) :
    drive signals p a = drive signals' p a := by
  rw [drive, drive]
  cases hbinding : p.binding with
  | none => rfl
  | some producer => simp only [h producer hbinding]

lemma driven_congr {m : Module} {signals signals' : Signals α}
    (h : ∀ p ∈ m.producers, signals p = signals' p) (own : Cells α) :
    m.driven signals own = m.driven signals' own := by
  have hparams : List.zipWith (drive signals) m.params own.params =
      List.zipWith (drive signals') m.params own.params := by
    apply List.ext_getElem?
    intro k
    rw [List.getElem?_zipWith, List.getElem?_zipWith]
    cases hq : m.params[k]? with
    | none => rfl
    | some q =>
        have hmem := List.mem_of_getElem? hq
        have hdrive : ∀ a, drive signals q a = drive signals' q a :=
          drive_congr fun p hp => h p (mem_producers_iff.mpr (Or.inr ⟨q, hmem, hp⟩))
        cases own.params[k]? with
        | none => rfl
        | some a => exact congrArg some (hdrive a)
  rw [driven, driven, hparams]

end Module

/-- **The equations of a sample.**  The signals and the cells that the sample leaves, for every
module that the sink needs. -/
def Graph.Solves (g : Graph) (react : ModuleId → Reaction α) (before : Memory α)
    (signals : Signals α) (after : Memory α) : Prop :=
  ∀ id m, g.Live id → g.get? id = some m →
    (signals id, after id) = react id (m.inputSignal signals) (m.driven signals (before id))

/-! ## The forward pass -/

/-- The signals and the cells in the middle of a sample. -/
structure Snapshot (α : Type) where
  signals : Signals α
  memory : Memory α

namespace Snapshot

/-- One module takes its turn. -/
def activate (react : ModuleId → Reaction α) (x : Snapshot α) (m : Module) : Snapshot α :=
  let result := react m.id (m.inputSignal x.signals) (m.driven x.signals (x.memory m.id))
  { signals := Function.update x.signals m.id result.1
    memory := Function.update x.memory m.id result.2 }

variable (react : ModuleId → Reaction α)

lemma activate_self (x : Snapshot α) (m : Module) :
    ((x.activate react m).signals m.id, (x.activate react m).memory m.id) =
      react m.id (m.inputSignal x.signals) (m.driven x.signals (x.memory m.id)) := by
  simp [activate]

lemma activate_of_ne (x : Snapshot α) {m : Module} {id : ModuleId} (h : id ≠ m.id) :
    (x.activate react m).signals id = x.signals id ∧
      (x.activate react m).memory id = x.memory id := by
  simp [activate, h]

/-- What the modules of a stretch do leaves everything else as it is. -/
lemma foldl_activate_of_not_mem {id : ModuleId} (modules : List Module) :
    ∀ (x : Snapshot α), id ∉ modules.map (·.id) →
      (modules.foldl (activate react) x).signals id = x.signals id ∧
      (modules.foldl (activate react) x).memory id = x.memory id := by
  induction modules with
  | nil =>
      intro x _
      exact ⟨rfl, rfl⟩
  | cons m modules ih =>
      intro x h
      simp only [List.map_cons, List.mem_cons, not_or] at h
      have hstep := activate_of_ne react x h.1
      have hrest := ih (x.activate react m) h.2
      exact ⟨hrest.1.trans hstep.1, hrest.2.trans hstep.2⟩

end Snapshot

/-- A sample, module by module in a given order. -/
def evaluate (react : ModuleId → Reaction α) (before : Memory α) (modules : List Module) :
    Snapshot α :=
  modules.foldl (Snapshot.activate react) ⟨fun _ => [], before⟩

namespace Graph

variable {g : Graph} {modules : List Module} {react : ModuleId → Reaction α}

/-- The pass solves the equations: what a module is given in its turn stays, since its producers
have had theirs. -/
theorem IsSchedule.solves_evaluate (hs : g.IsSchedule modules) (before : Memory α) :
    g.Solves react before (evaluate react before modules).signals
      (evaluate react before modules).memory := by
  intro id m hlive hm
  rcases List.mem_map.mp ((hs.live_iff id).mpr hlive) with ⟨m', hm', rfl⟩
  cases hm.symm.trans (hs.member m' hm')
  rcases List.append_of_mem hm' with ⟨first, second, hsplit⟩
  have hnodup := hs.nodup
  rw [hsplit, List.map_append, List.map_cons, List.nodup_append] at hnodup
  have hfresh : m.id ∉ first.map (·.id) := fun h => hnodup.2.2 _ h _ (List.mem_cons_self ..) rfl
  have hlast : m.id ∉ second.map (·.id) := (List.nodup_cons.mp hnodup.2.1).1
  have hpass : evaluate react before modules =
      second.foldl (Snapshot.activate react) ((evaluate react before first).activate react m) := by
    rw [hsplit, evaluate, List.foldl_append]
    rfl
  have hkept := Snapshot.foldl_activate_of_not_mem react second
    ((evaluate react before first).activate react m) hlast
  have hmemory : (evaluate react before first).memory m.id = before m.id :=
    (Snapshot.foldl_activate_of_not_mem react first _ hfresh).2
  have hproducers : ∀ p ∈ m.producers, (evaluate react before first).signals p =
      (evaluate react before modules).signals p := by
    intro p hp
    have hfirst := hs.producersFirst first m second hsplit p hp
    have hp : p ≠ m.id := fun h => hfresh (h ▸ hfirst)
    have hp' : p ∉ second.map (·.id) :=
      fun h => hnodup.2.2 _ hfirst _ (List.mem_cons_of_mem _ h) rfl
    rw [hpass, (Snapshot.foldl_activate_of_not_mem react second _ hp').1,
      (Snapshot.activate_of_ne react _ hp).1]
  rw [← Module.inputSignal_congr hproducers, ← Module.driven_congr hproducers, ← hmemory, hpass,
    hkept.1, hkept.2]
  exact Snapshot.activate_self react _ m

/-- The equations have no other solution: this goes along the order, the producers of a module
standing before it. -/
theorem IsSchedule.solves_unique (hs : g.IsSchedule modules) {before : Memory α}
    {signals signals' : Signals α} {after after' : Memory α}
    (h : g.Solves react before signals after) (h' : g.Solves react before signals' after')
    {id : ModuleId} (hid : g.Live id) : signals id = signals' id ∧ after id = after' id := by
  have halong : ∀ first second, modules = first ++ second → ∀ p ∈ first.map (·.id),
      signals p = signals' p ∧ after p = after' p := by
    intro first
    induction first using List.reverseRecOn with
    | nil => simp
    | append_singleton first m ih =>
        intro second hsplit p hp
        rw [List.append_assoc, List.singleton_append] at hsplit
        have hfirst := ih (m :: second) hsplit
        rw [List.map_append, List.mem_append, List.map_singleton, List.mem_singleton] at hp
        rcases hp with hp | rfl
        · exact hfirst p hp
        · have hm : m ∈ modules := hsplit ▸ List.mem_append_right _ (List.mem_cons_self ..)
          have hlive := (hs.live_iff m.id).mp (List.mem_map_of_mem hm)
          have hproducers : ∀ q ∈ m.producers, signals q = signals' q :=
            fun q hq => (hfirst q (hs.producersFirst first m second hsplit q hq)).1
          have heq := h m.id m hlive (hs.member m hm)
          have heq' := h' m.id m hlive (hs.member m hm)
          rw [Module.inputSignal_congr hproducers, Module.driven_congr hproducers, ← heq'] at heq
          exact Prod.mk.inj heq
  exact halong modules [] (List.append_nil _).symm id ((hs.live_iff id).mpr hid)

end Graph

end Patchbay
