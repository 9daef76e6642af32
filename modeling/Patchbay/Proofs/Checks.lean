import Patchbay.Proofs.Handles
import Patchbay.Proofs.Rewiring

/-!
# The checks of edits

An edit looks at its conditions one after the other, and the first of them that fails decides.  Only
if none fails does it change the graph, in one place.

* `Graph.Check`, `Graph.Check.Fails` — a condition, and how it fails with which error.
* `Graph.Edit.checks` — **the conditions of every edit, in their order.**
* `Graph.FirstFails` — the error of the first condition that fails, with a step lemma for each way
  in which an edit goes on from one condition to the next.
* `Graph.apply_eq_error_iff` — the errors of all edits.
* `Graph.put` — a graph with another module under a handle and nothing else changed.
* `Graph.edits_exact` — **when the calls on slots and values succeed, what they change, and what
  they are refused for.**
-/

namespace Patchbay

/-- The module with another value for a parameter. -/
def Module.tune (m : Module) (name : String) (value : Binary32) : Module :=
  { m with params := m.params.map fun p => if p.name = name then { p with value := value } else p }

namespace Graph

variable {g h : Graph} {id source target : ModuleId} {name param : String} {m : Module}
  {x : GraphError}

/-! ## Checks -/

/-- A condition of an edit. -/
inductive Check where
  /-- The catalog has a definition. -/
  | known (definition : String)
  /-- A handle has a module. -/
  | member (id : ModuleId)
  /-- A module is not the sink. -/
  | removable (id : ModuleId)
  | output (id : ModuleId)
  | input (id : ModuleId)
  /-- A module takes as many channels as another one gives. -/
  | channels (source target : ModuleId)
  /-- A module has a single output channel. -/
  | mono (id : ModuleId)
  | param (id : ModuleId) (name : String)
  /-- Nothing is bound to a jack. -/
  | free (jack : Jack)
  deriving DecidableEq, Repr

/-- **How a check fails**, and with which error.  What is checked about a module presupposes that
the module is there. -/
def Check.Fails (g : Graph) (x : GraphError) : Check → Prop
  | .known name => g.catalog.get? name = none ∧ x = .notFound name
  | .member id => g.get? id = none ∧ x = .notMember id
  | .removable id => id = .sink ∧ x = .sinkRemoval
  | .output id => ∃ m, g.get? id = some m ∧ m.outChannels = 0 ∧ x = .noOutput m.name
  | .input id => ∃ m, g.get? id = some m ∧ m.inChannels = 0 ∧ x = .noInput m.name
  | .channels source target => ∃ sender receiver, g.get? source = some sender ∧
      g.get? target = some receiver ∧ receiver.inChannels ≠ sender.outChannels ∧
      x = .channelMismatch receiver.name receiver.inChannels sender.outChannels
  | .mono id => ∃ m, g.get? id = some m ∧ m.outChannels ≠ 1 ∧ x = .notMono m.name
  | .param id name => ∃ m, g.get? id = some m ∧ ¬ m.HasSlot (.param name) ∧
      x = .noSuchParam m.name name
  | .free jack => ∃ m, g.get? jack.owner = some m ∧ m.bound? jack.slot ≠ none ∧
      x = .slotOccupied m.name jack.slot

/-- **The conditions of an edit, in their order.** -/
def Edit.checks : Edit → List Check
  | .add definition => [.known definition]
  | .remove id => [.member id, .removable id]
  | .rename id _ => [.member id]
  | .setName _ => []
  | .setParam id param _ => [.member id, .param id param]
  | .connect source target =>
      [.member source, .member target, .output source, .input target, .channels source target,
        .free ⟨target, .input⟩]
  | .connectParam source target param =>
      [.member source, .member target, .output source, .mono source, .param target param,
        .free ⟨target, .param param⟩]
  | .disconnect target => [.member target, .input target]
  | .disconnectParam target param => [.member target, .param target param]

/-- The error of the first check of a list that fails. -/
def FirstFails (g : Graph) (checks : List Check) (x : GraphError) : Prop :=
  ∃ before c after, checks = before ++ c :: after ∧ (∀ b ∈ before, ∀ y, ¬ b.Fails g y) ∧
    c.Fails g x

lemma not_firstFails_nil : ¬ g.FirstFails [] x := by
  rintro ⟨before, c, after, h, -⟩
  simp at h

/-- A list of checks is gone through from its start. -/
lemma firstFails_cons {c : Check} {checks : List Check} :
    g.FirstFails (c :: checks) x ↔ c.Fails g x ∨ (∀ y, ¬ c.Fails g y) ∧ g.FirstFails checks x := by
  constructor
  · rintro ⟨before, d, after, heq, hbefore, hd⟩
    cases before with
    | nil =>
        cases heq
        exact Or.inl hd
    | cons b before =>
        cases heq
        rw [List.forall_mem_cons] at hbefore
        exact Or.inr ⟨hbefore.1, before, d, after, rfl, hbefore.2, hd⟩
  · rintro (hc | ⟨hc, before, d, after, rfl, hbefore, hd⟩)
    · exact ⟨[], c, checks, rfl, by simp, hc⟩
    · exact ⟨c :: before, d, after, rfl, by simpa using ⟨hc, hbefore⟩, hd⟩

/-! ## From one check to the next -/

section Steps

variable {α : Type} {checks : List Check}

/-- An edit that is through with its checks is not refused. -/
lemma pure_step {a : α} : (pure a : Except GraphError α) = .error x ↔ g.FirstFails [] x := by
  refine iff_of_false ?_ not_firstFails_nil
  intro h
  cases h

/-- A condition that is required. -/
lemma require_step {c : Check} {condition : Prop} [Decidable condition] {error : GraphError}
    {rest : Unit → Except GraphError α} (hc : ∀ y, c.Fails g y ↔ ¬ condition ∧ y = error)
    (hrest : rest () = .error x ↔ g.FirstFails checks x) :
    (require condition error >>= rest) = .error x ↔ g.FirstFails (c :: checks) x := by
  rw [bind_eq_error_iff, firstFails_cons, require_eq_error_iff]
  simp only [require_eq_ok_iff, hc]
  by_cases hcondition : condition
  · simp [hcondition, hrest]
  · simp [hcondition]

/-- A module that has to be there. -/
lemma get_step {rest : Module → Except GraphError α}
    (hrest : ∀ m, g.get? id = some m → (rest m = .error x ↔ g.FirstFails checks x)) :
    (g.get id >>= rest) = .error x ↔ g.FirstFails (.member id :: checks) x := by
  rw [bind_eq_error_iff, firstFails_cons]
  simp only [Check.Fails, get]
  cases hm : g.get? id with
  | none => simp [eq_comm]
  | some m => simp [hrest m hm]

lemma firstFails_param (hm : g.get? id = some m) :
    g.FirstFails (.param id param :: checks) x ↔
      match m.paramIndex? param with
      | none => x = .noSuchParam m.name param
      | some _ => g.FirstFails checks x := by
  rw [firstFails_cons]
  simp only [Check.Fails, hm, Option.some.injEq, exists_eq_left']
  cases hk : m.paramIndex? param with
  | none =>
      have habsent : ¬ m.HasSlot (.param param) := fun hslot => by
        rcases Module.exists_paramIndex? hslot with ⟨k, hk'⟩
        cases hk.symm.trans hk'
      simp [habsent]
  | some k => simp [Module.hasSlot_of_paramIndex? hk]

/-- A parameter that has to be there, like its module. -/
lemma resolveParam_step {rest : Nat → Except GraphError α}
    (hrest : ∀ k m, g.get? id = some m → m.paramIndex? param = some k →
      (rest k = .error x ↔ g.FirstFails checks x)) :
    (g.resolveParam id param >>= rest) = .error x ↔
      g.FirstFails (.member id :: .param id param :: checks) x := by
  rw [resolveParam, bind_assoc]
  refine get_step fun m hm => ?_
  rw [firstFails_param hm]
  cases hk : m.paramIndex? param with
  | none =>
      constructor
      · intro h
        cases h
        rfl
      · rintro rfl
        rfl
  | some k => exact hrest k m hm hk

/-- The two modules of a connection. -/
lemma endpoints_step {rest : Module × Module → Except GraphError α}
    (hrest : ∀ sender receiver, g.get? source = some sender → g.get? target = some receiver →
      (rest (sender, receiver) = .error x ↔ g.FirstFails checks x)) :
    (g.endpoints source target >>= rest) = .error x ↔
      g.FirstFails (.member source :: .member target :: .output source :: checks) x := by
  simp only [endpoints, bind_assoc, pure_bind]
  refine get_step fun sender hs => get_step fun receiver hr => ?_
  refine require_step (fun y => ?_) (hrest sender receiver hs hr)
  simp [Check.Fails, hs]

end Steps

/-- **What an edit is refused for**: the first of its checks that fails. -/
lemma apply_eq_error_iff {e : Edit} : g.apply e = .error x ↔ g.FirstFails e.checks x := by
  cases e with
  | add definition =>
      simp only [apply, add, Edit.checks, firstFails_cons, Check.Fails, Catalog.lookup]
      cases g.catalog.get? definition with
      | none => simp [bind, Except.bind, eq_comm]
      | some d => simp [bind, Except.bind, pure, Except.pure, not_firstFails_nil]
  | remove id =>
      refine get_step fun m hm => require_step (fun y => ?_) pure_step
      simp [Check.Fails]
  | rename id name => exact get_step fun m hm => pure_step
  | setName name => exact pure_step
  | setParam id param value => exact resolveParam_step fun k m hm hk => pure_step
  | connect source target =>
      refine endpoints_step fun sender receiver hs hr => ?_
      refine require_step (fun y => ?_) (require_step (fun y => ?_)
        (require_step (fun y => ?_) pure_step))
      · simp [Check.Fails, hr]
      · simp [Check.Fails, hs, hr]
      · simp [Check.Fails, hr, Module.bound?]
  | connectParam source target param =>
      refine endpoints_step fun sender receiver hs hr => ?_
      refine require_step (fun y => ?_) ?_
      · simp [Check.Fails, hs]
      · -- the slot is looked at by the place of the parameter, which is that of its name
        rw [firstFails_param hr]
        cases hk : receiver.paramIndex? param with
        | none => simp [eq_comm]
        | some k =>
            refine require_step (fun y => ?_) pure_step
            simp [Check.Fails, hr, Module.bound?_of_paramIndex? hk]
  | disconnect target =>
      refine get_step fun m hm => require_step (fun y => ?_) pure_step
      simp [Check.Fails, hm]
  | disconnectParam target param => exact resolveParam_step fun k m hm hk => pure_step

/-! ## What edits change -/

/-- **The graph with another module under a handle.**  Its name, its catalog and everything under
other handles stay as they are. -/
def put (g : Graph) (id : ModuleId) (m : Module) : Graph :=
  { g with arena := g.arena.setIfInBounds id.index (some m) }

lemma get?_put (hm : g.get? id = some m) (m' : Module) (other : ModuleId) :
    (g.put id m').get? other = if id = other then some m' else g.get? other := by
  rcases id with ⟨i⟩
  rcases other with ⟨j⟩
  have hi : i < g.arena.size := (Array.getElem?_eq_some_iff.mp (get?_eq_some_iff.mp hm)).1
  simp only [put, get?, ModuleId.mk.injEq, Array.getElem?_setIfInBounds, hi, if_true]
  split_ifs with heq
  · rfl
  · rfl

/-- Changing a module is putting the changed one in its place. -/
lemma modifyModule_eq_put (hm : g.get? id = some m) (change : Module → Module) :
    g.modifyModule id change = g.put id (change m) := by
  refine ext_get? rfl rfl (by simp [modifyModule, put]) fun other => ?_
  rw [get?_modifyModule, get?_put hm]
  split_ifs with heq
  · rw [← heq, hm]
    rfl
  · rfl

lemma setParam_eq_ok_iff_put (hg : g.WellFormed) {value : Binary32} :
    g.setParam target param value = .ok h ↔ ∃ receiver, g.get? target = some receiver ∧
      receiver.HasSlot (.param param) ∧ h = g.put target (receiver.tune param value) := by
  rw [setParam_eq_ok_iff]
  have htune : ∀ k m, g.get? target = some m → m.paramIndex? param = some k →
      g.modifyModule target (·.setValue k value) = g.put target (m.tune param value) := by
    intro k m hm hk
    rw [modifyModule_eq_put hm, Module.setValue,
      Module.modify_params_eq_map (hg.params_nodup hm) hk]
    rfl
  constructor
  · rintro ⟨k, ⟨m, hm, hk⟩, rfl⟩
    exact ⟨m, hm, Module.hasSlot_of_paramIndex? hk, htune k m hm hk⟩
  · rintro ⟨m, hm, hslot, rfl⟩
    rcases Module.exists_paramIndex? hslot with ⟨k, hk⟩
    exact ⟨k, ⟨m, hm, hk⟩, (htune k m hm hk).symm⟩

/-- Binding or freeing a jack changes its owner. -/
lemma assign_eq_put (hm : g.get? target = some m) (slot : Slot) (producer : Option ModuleId) :
    g.assign ⟨target, slot⟩ producer = g.put target (m.assign producer slot) :=
  modifyModule_eq_put hm _

lemma unplug_eq_ok_iff_put (hg : g.WellFormed) (slot : Slot) :
    g.apply (Jack.unplug ⟨target, slot⟩) = .ok h ↔ ∃ receiver, g.get? target = some receiver ∧
      receiver.HasSlot slot ∧ h = g.put target (receiver.assign none slot) := by
  rw [unplug_eq_ok_iff hg]
  constructor
  · rintro ⟨⟨m, hm, hslot⟩, rfl⟩
    exact ⟨m, hm, hslot, assign_eq_put hm slot none⟩
  · rintro ⟨m, hm, hslot, rfl⟩
    exact ⟨⟨m, hm, hslot⟩, (assign_eq_put hm slot none).symm⟩

lemma plug_eq_ok_iff_put (hg : g.WellFormed) (slot : Slot) :
    g.apply (Jack.plug ⟨target, slot⟩ source) = .ok h ↔ ∃ sender receiver,
      g.get? source = some sender ∧ g.get? target = some receiver ∧
      sender.outChannels = receiver.width slot ∧ receiver.HasSlot slot ∧
      receiver.bound? slot = none ∧
      h = g.put target (receiver.assign (some source) slot) := by
  rw [plug_eq_ok_iff hg]
  constructor
  · rintro ⟨⟨m, hm, hslot, hout, hfree⟩, rfl⟩
    rcases outputs_eq_some_iff.mp hout with ⟨s, hs, hwidth⟩
    exact ⟨s, m, hs, hm, hwidth, hslot, hfree, assign_eq_put hm slot (some source)⟩
  · rintro ⟨s, m, hs, hm, hwidth, hslot, hfree, rfl⟩
    exact ⟨⟨m, hm, hslot, outputs_eq_some_iff.mpr ⟨s, hs, hwidth⟩, hfree⟩,
      (assign_eq_put hm slot (some source)).symm⟩

/-- **The calls on slots and values, exactly**, in every graph that can come about.  No module has
two parameters of one name.  Each call succeeds if and only if its conditions hold, and it leads to
the same graph with one module changed in the named slot or value.  A call that is refused is
refused for the first of its checks that fails, and leaves the graph as it is. -/
theorem edits_exact (hg : g.Reachable) :
    (∀ id m, g.get? id = some m → (m.params.map (·.name)).Nodup) ∧
    (∀ source target h, g.connect source target = .ok h ↔ ∃ sender receiver,
      g.get? source = some sender ∧ g.get? target = some receiver ∧ sender.outChannels ≠ 0 ∧
      receiver.inChannels ≠ 0 ∧ receiver.inChannels = sender.outChannels ∧
      receiver.mainInput = none ∧ h = g.put target { receiver with mainInput := some source }) ∧
    (∀ source target param h, g.connectParam source target param = .ok h ↔ ∃ sender receiver,
      g.get? source = some sender ∧ g.get? target = some receiver ∧ sender.outChannels = 1 ∧
      receiver.HasSlot (.param param) ∧ receiver.bound? (.param param) = none ∧
      h = g.put target (receiver.assign (some source) (.param param))) ∧
    (∀ target h, g.disconnect target = .ok h ↔ ∃ receiver, g.get? target = some receiver ∧
      receiver.inChannels ≠ 0 ∧ h = g.put target { receiver with mainInput := none }) ∧
    (∀ target param h, g.disconnectParam target param = .ok h ↔ ∃ receiver,
      g.get? target = some receiver ∧ receiver.HasSlot (.param param) ∧
      h = g.put target (receiver.assign none (.param param))) ∧
    (∀ target param value h, g.setParam target param value = .ok h ↔ ∃ receiver,
      g.get? target = some receiver ∧ receiver.HasSlot (.param param) ∧
      h = g.put target (receiver.tune param value)) ∧
    (∀ e x, g.apply e = .error x ↔ g.FirstFails e.checks x) ∧
    (∀ e x, g.apply e = .error x → g.next e = g) := by
  have hwf := hg.wellFormed
  refine ⟨fun id m hm => hwf.params_nodup hm, ?_, ?_,
    fun target h => unplug_eq_ok_iff_put hwf .input,
    fun target param h => unplug_eq_ok_iff_put hwf (.param param),
    fun target param value h => setParam_eq_ok_iff_put hwf, fun e x => apply_eq_error_iff,
    fun e x => next_of_error⟩
  · intro source target h
    refine (plug_eq_ok_iff_put hwf .input).trans ?_
    constructor
    · rintro ⟨s, r, hs, hr, hwidth, hslot, hfree, rfl⟩
      exact ⟨s, r, hs, hr, hwidth ▸ hslot, hslot, hwidth.symm, hfree, rfl⟩
    · rintro ⟨s, r, hs, hr, -, hin, hcount, hfree, rfl⟩
      exact ⟨s, r, hs, hr, hcount.symm, hin, hfree, rfl⟩
  · intro source target param h
    exact plug_eq_ok_iff_put hwf (.param param)

/-- The second oscillator of the demo patch can modulate itself.  It cannot be connected to the
sink, and that the channel counts differ is found before that the sink is connected. -/
theorem edits_exact_demo :
    (∃ h, demo.connectParam ⟨3⟩ ⟨3⟩ "freq" = .ok h) ∧
      demo.connect ⟨3⟩ .sink = .error (.channelMismatch sinkDisplayName 2 1) := by
  have hosc : demo.get? ⟨3⟩ = some (.instantiate ⟨3⟩ demoSawtooth) := by decide +kernel
  have hsink : demo.get? .sink = some
      (((Module.instantiate .sink .sink).setName sinkDisplayName).setMainInput (some ⟨4⟩)) := by
    decide +kernel
  rcases edits_exact demo_reachable with ⟨-, -, hconnectParam, -, -, -, herror, -⟩
  constructor
  · refine ⟨_, (hconnectParam ⟨3⟩ ⟨3⟩ "freq" _).mpr ⟨_, _, hosc, hosc, rfl, ?_, rfl, rfl⟩⟩
    exact ⟨_, List.mem_singleton_self _, rfl⟩
  · refine (herror (.connect ⟨3⟩ .sink) _).mpr ?_
    refine ⟨[.member ⟨3⟩, .member .sink, .output ⟨3⟩, .input .sink], .channels ⟨3⟩ .sink,
      [.free ⟨.sink, .input⟩], rfl, ?_, _, _, hosc, hsink, by decide, rfl⟩
    have hout : (Module.instantiate ⟨3⟩ demoSawtooth).outChannels ≠ 0 := by decide
    have hin : (((Module.instantiate .sink .sink).setName sinkDisplayName).setMainInput
        (some ⟨4⟩)).inChannels ≠ 0 := by decide
    simp [Check.Fails, hosc, hsink, hout, hin]

end Graph

end Patchbay
