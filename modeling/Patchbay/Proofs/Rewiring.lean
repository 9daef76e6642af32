import Patchbay.Proofs.WellFormed

/-!
# Taking a patch apart and wiring it again

Every bound slot of a graph could have been bound last: the checks of a connection look at its own
slot, at the two modules and at nothing else.  So a patch can be unwired completely, and the same
connections lead back to it in whatever order they are made.

* `Jack` — a slot of a module, with the calls that bind it and free it.
* `Graph.freed` — the graph with some jacks freed.  Both kinds of calls are read as steps between
  such graphs: `Graph.unplug_freed` frees one jack more, `Graph.plug_freed` one jack less.
* `Graph.run_unplugs`, `Graph.run_plugs` — hence what runs of these calls lead to.
* `Graph.apply_plug_comm` — connections of different jacks do not notice each other.
* `Graph.wiring_rebuilt` — **every wiring can be rebuilt in any order.**
-/

namespace Patchbay

/-! ## Jacks -/

/-- A jack is a slot of the module of a handle. -/
structure Jack where
  owner : ModuleId
  slot : Slot
  deriving DecidableEq, Repr

namespace Jack

/-- The call that binds a jack to a producer. -/
def plug (j : Jack) (source : ModuleId) : Graph.Edit :=
  match j.slot with
  | .input => .connect source j.owner
  | .param name => .connectParam source j.owner name

/-- The call that frees a jack. -/
def unplug (j : Jack) : Graph.Edit :=
  match j.slot with
  | .input => .disconnect j.owner
  | .param name => .disconnectParam j.owner name

lemma plug_inj : ∀ {j k : Jack} {p q : ModuleId}, j.plug p = k.plug q → j = k ∧ p = q
  | ⟨_, .input⟩, ⟨_, .input⟩, _, _, h => by cases h; exact ⟨rfl, rfl⟩
  | ⟨_, .param _⟩, ⟨_, .param _⟩, _, _, h => by cases h; exact ⟨rfl, rfl⟩
  | ⟨_, .input⟩, ⟨_, .param _⟩, _, _, h => by cases h
  | ⟨_, .param _⟩, ⟨_, .input⟩, _, _, h => by cases h

lemma unplug_inj : ∀ {j k : Jack}, j.unplug = k.unplug → j = k
  | ⟨_, .input⟩, ⟨_, .input⟩, h => by cases h; rfl
  | ⟨_, .param _⟩, ⟨_, .param _⟩, h => by cases h; rfl
  | ⟨_, .input⟩, ⟨_, .param _⟩, h => by cases h
  | ⟨_, .param _⟩, ⟨_, .input⟩, h => by cases h

end Jack

/-! ## The slots of a module -/

namespace Module

variable {m : Module} {slot other : Slot} {free : List Jack} {name : String} {k : Nat}

/-- The producer that a slot is bound to. -/
def bound? (m : Module) : Slot → Option ModuleId
  | .input => m.mainInput
  | .param name => (m.param? name).bind (·.binding)

/-- Whether a module has a slot: only a module that takes an input has one to be bound. -/
def HasSlot (m : Module) : Slot → Prop
  | .input => m.inChannels ≠ 0
  | .param name => ∃ p ∈ m.params, p.name = name

/-- The number of channels that a slot takes. -/
def width (m : Module) : Slot → UInt8
  | .input => m.inChannels
  | .param _ => 1

/-- The module with a slot bound or freed. -/
def assign (m : Module) (producer : Option ModuleId) : Slot → Module
  | .input => m.setMainInput producer
  | .param name =>
      { m with
        params := m.params.map fun p =>
          if p.name = name then { p with binding := producer } else p }

/-- The jacks of a module: its main input, if it takes one, and its parameters. -/
def jacks (m : Module) : List Jack :=
  (if m.inChannels = 0 then [] else [⟨m.id, .input⟩]) ++ m.params.map fun p => ⟨m.id, .param p.name⟩

/-- The module with some jacks freed, those of other modules having no effect. -/
def freed (m : Module) (free : List Jack) : Module :=
  { m with
    mainInput := if ⟨m.id, .input⟩ ∈ free then none else m.mainInput
    params := m.params.map fun p =>
      { p with binding := if ⟨m.id, .param p.name⟩ ∈ free then none else p.binding } }

/-- The module with nothing bound. -/
def unwired (m : Module) : Module :=
  { m with mainInput := none, params := m.params.map fun p => { p with binding := none } }

lemma mem_jacks_iff {j : Jack} : j ∈ m.jacks ↔ j.owner = m.id ∧ m.HasSlot j.slot := by
  rcases j with ⟨id, slot⟩
  rw [jacks, List.mem_append, List.mem_map]
  constructor
  · rintro (h | ⟨p, hp, h⟩)
    · split_ifs at h with hin
      · cases h
      · cases List.mem_singleton.mp h
        exact ⟨rfl, hin⟩
    · cases h
      exact ⟨rfl, p, hp, rfl⟩
  · rintro ⟨rfl, hslot⟩
    cases slot with
    | input => exact Or.inl (by rw [if_neg hslot]; exact List.mem_singleton_self _)
    | param name =>
        rcases hslot with ⟨p, hp, rfl⟩
        exact Or.inr ⟨p, hp, rfl⟩

lemma jacks_nodup (hnames : (m.params.map (·.name)).Nodup) : m.jacks.Nodup := by
  have hparams : (m.params.map fun p => (⟨m.id, .param p.name⟩ : Jack)).Nodup := by
    have := hnames.map (f := fun name => (⟨m.id, .param name⟩ : Jack)) fun a b h => by simpa using h
    rwa [List.map_map] at this
  rw [jacks]
  split_ifs
  · exact hparams
  · simp [hparams]

/-! ### Parameters by name and by place -/

lemma bound?_of_paramIndex? (h : m.paramIndex? name = some k) :
    m.bound? (.param name) = m.params[k]?.bind (·.binding) := by
  rcases param?_of_paramIndex? h with ⟨p, hp, -, hfind⟩
  rw [bound?, hfind, hp]

/-- Without repeated names, changing a parameter by place is changing it by name. -/
lemma modify_params_eq_map (hnames : (m.params.map (·.name)).Nodup)
    (h : m.paramIndex? name = some k) (change : Param → Param) :
    m.params.modify k change = m.params.map fun p => if p.name = name then change p else p := by
  rcases param?_of_paramIndex? h with ⟨p, hp, hname, -⟩
  refine List.ext_getElem? fun j => ?_
  rw [List.getElem?_modify, List.getElem?_map]
  cases hj : m.params[j]? with
  | none => rfl
  | some q =>
      have hsame : k = j ↔ q.name = name := by
        constructor
        · rintro rfl
          cases hp.symm.trans hj
          exact hname
        · intro hq
          rcases List.getElem?_eq_some_iff.mp hp with ⟨hk, rfl⟩
          rcases List.getElem?_eq_some_iff.mp hj with ⟨hj', rfl⟩
          have hk' : k < (m.params.map (·.name)).length := by simpa using hk
          have hj'' : j < (m.params.map (·.name)).length := by simpa using hj'
          have heq : (m.params.map (·.name))[k] = (m.params.map (·.name))[j] := by simp [hname, hq]
          exact hnames.getElem_inj_iff.mp heq
      by_cases hq : q.name = name
      · simp [hsame.mpr hq, hq]
      · simp [mt hsame.mp hq, hq]

/-- Without repeated names, binding by place is binding by name. -/
lemma setBinding_eq_assign (hnames : (m.params.map (·.name)).Nodup)
    (h : m.paramIndex? name = some k) (producer : Option ModuleId) :
    m.setBinding k producer = m.assign producer (.param name) := by
  rw [setBinding, modify_params_eq_map hnames h]
  rfl

lemma exists_paramIndex? (h : m.HasSlot (.param name)) : ∃ k, m.paramIndex? name = some k := by
  rcases h with ⟨p, hp, rfl⟩
  cases hk : m.paramIndex? p.name with
  | some k => exact ⟨k, rfl⟩
  | none => simpa using List.findIdx?_eq_none_iff.mp hk p hp

lemma hasSlot_of_paramIndex? (h : m.paramIndex? name = some k) : m.HasSlot (.param name) := by
  rcases param?_of_paramIndex? h with ⟨p, hp, hname, -⟩
  exact ⟨p, List.mem_of_getElem? hp, hname⟩

lemma bound?_param (hnames : (m.params.map (·.name)).Nodup) {p : Param} (hp : p ∈ m.params) :
    m.bound? (.param p.name) = p.binding := by
  rw [bound?, param?]
  cases hfind : m.params.find? (·.name = p.name) with
  | none => simpa using List.find?_eq_none.mp hfind p hp
  | some q =>
      have hname : q.name = p.name := by simpa using List.find?_some hfind
      have hq := List.mem_of_find?_eq_some hfind
      rw [List.inj_on_of_nodup_map hnames hq hp hname]
      rfl

/-! ### Freeing and binding -/

@[simp] lemma freed_nil (m : Module) : m.freed [] = m := by
  simp [freed]

/-- A jack of another module has no effect. -/
lemma freed_cons_of_ne {j : Jack} (h : m.id ≠ j.owner) : m.freed (j :: free) = m.freed free := by
  have hjack : ∀ slot, (⟨m.id, slot⟩ : Jack) ∈ j :: free ↔ ⟨m.id, slot⟩ ∈ free := by
    intro slot
    rw [List.mem_cons, or_iff_right]
    rintro rfl
    exact h rfl
  simp only [freed, hjack]

@[simp] lemma hasSlot_freed : (m.freed free).HasSlot slot ↔ m.HasSlot slot := by
  cases slot <;> simp [HasSlot, freed, inChannels]

@[simp] lemma width_freed : (m.freed free).width slot = m.width slot := by
  cases slot <;> rfl

@[simp] lemma map_name_freed : (m.freed free).params.map (·.name) = m.params.map (·.name) := by
  simp [freed]

/-- What is bound in a module with jacks freed is what is bound elsewhere. -/
lemma bound?_freed :
    (m.freed free).bound? slot = if ⟨m.id, slot⟩ ∈ free then none else m.bound? slot := by
  cases slot with
  | input => rfl
  | param name =>
      simp only [bound?, param?, freed, List.find?_map, Function.comp_def]
      cases hfind : m.params.find? (·.name = name) with
      | none => simp
      | some p =>
          have hname : p.name = name := by simpa using List.find?_some hfind
          simp [hname]

/-- Freeing one jack more. -/
lemma assign_none_freed (m : Module) (free : List Jack) (slot : Slot) :
    (m.freed free).assign none slot = m.freed (⟨m.id, slot⟩ :: free) := by
  cases slot with
  | input => simp [assign, setMainInput, freed]
  | param name =>
      simp only [assign, freed, List.map_map, List.mem_cons, Jack.mk.injEq, reduceCtorEq, and_false,
        false_or, true_and, Slot.param.injEq]
      congr 1
      refine List.map_congr_left fun p _ => ?_
      by_cases hp : p.name = name <;> simp [hp]

/-- Binding a freed jack to what it was bound to. -/
lemma assign_bound?_freed (hnames : (m.params.map (·.name)).Nodup)
    (hslot : (⟨m.id, slot⟩ : Jack) ∉ free) :
    (m.freed (⟨m.id, slot⟩ :: free)).assign (m.bound? slot) slot = m.freed free := by
  cases slot with
  | input => simp [assign, setMainInput, freed, bound?, hslot]
  | param name =>
      simp only [assign, freed, List.map_map, List.mem_cons, Jack.mk.injEq, reduceCtorEq, and_false,
        false_or, true_and, Slot.param.injEq]
      congr 1
      refine List.map_congr_left fun p hp => ?_
      by_cases hname : p.name = name
      · subst hname
        simp [hslot, bound?_param hnames hp]
      · simp [hname]

/-- With all bound slots freed, nothing is bound. -/
lemma freed_eq_unwired (hnames : (m.params.map (·.name)).Nodup)
    (h : ∀ slot p, m.bound? slot = some p → ⟨m.id, slot⟩ ∈ free) : m.freed free = m.unwired := by
  have hfree : ∀ slot, (if ⟨m.id, slot⟩ ∈ free then none else m.bound? slot) = none := by
    intro slot
    cases hbound : m.bound? slot with
    | none => simp
    | some p => rw [if_pos (h slot p hbound)]
  have hinput : (if ⟨m.id, .input⟩ ∈ free then none else m.mainInput) = none := hfree .input
  simp only [freed, unwired, hinput]
  congr 1
  refine List.map_congr_left fun p hp => ?_
  rw [← bound?_param hnames hp, hfree]

lemma assign_comm (hne : slot ≠ other) (p q : Option ModuleId) (m : Module) :
    (m.assign p slot).assign q other = (m.assign q other).assign p slot := by
  cases slot with
  | input => cases other <;> first | exact absurd rfl hne | rfl
  | param name =>
      cases other with
      | input => rfl
      | param name' =>
          have hname : name ≠ name' := fun h => hne (congrArg _ h)
          simp only [assign, List.map_map]
          congr 1
          refine List.map_congr_left fun r _ => ?_
          by_cases h : r.name = name
          · simp [h, hname]
          · by_cases h' : r.name = name'
            · simp [h', hname.symm]
            · simp [h, h']

/-! ### What a connection is checked for -/

/-- The checks of a connection, which look at the slot and at the two modules. -/
def inspect (receiver sender : Module) (slot : Slot) : Except GraphError Unit := do
  require (sender.outChannels ≠ 0) (.noOutput sender.name)
  match slot with
  | .input =>
      require (receiver.inChannels ≠ 0) (.noInput receiver.name)
      require (receiver.inChannels = sender.outChannels)
        (.channelMismatch receiver.name receiver.inChannels sender.outChannels)
  | .param name =>
      require (sender.outChannels = 1) (.notMono sender.name)
      require (receiver.paramIndex? name ≠ none) (.noSuchParam receiver.name name)
  require (receiver.bound? slot = none) (.slotOccupied receiver.name slot)

/-- The slots of the producer do not matter. -/
lemma inspect_assign_sender (r s : Module) (p : Option ModuleId) :
    r.inspect (s.assign p other) slot = r.inspect s slot := by
  cases other <;> rfl

lemma name_assign_param (q : Param) (p : Option ModuleId) :
    (if q.name = name then { q with binding := p } else q).name = q.name := by
  split_ifs <;> rfl

lemma paramIndex?_assign (r : Module) (p : Option ModuleId) :
    (r.assign p slot).paramIndex? name = r.paramIndex? name := by
  cases slot with
  | input => rfl
  | param name' =>
      simp only [paramIndex?, assign, List.findIdx?_map, Function.comp_def, name_assign_param]

lemma bound?_assign_of_ne (hne : other ≠ slot) (r : Module) (p : Option ModuleId) :
    (r.assign p other).bound? slot = r.bound? slot := by
  cases slot with
  | input =>
      cases other with
      | input => exact absurd rfl hne
      | param name => rfl
  | param name =>
      cases other with
      | input => rfl
      | param name' =>
          simp only [bound?, param?, assign, List.find?_map, Function.comp_def, name_assign_param]
          cases hfind : r.params.find? (·.name = name) with
          | none => rfl
          | some q =>
              have hname : q.name = name := by simpa using List.find?_some hfind
              have hne' : q.name ≠ name' := fun h => hne (congrArg _ (h.symm.trans hname))
              simp [hne']

/-- Nor do the other slots of the consumer. -/
lemma inspect_assign_receiver (hne : other ≠ slot) (r s : Module) (p : Option ModuleId) :
    (r.assign p other).inspect s slot = r.inspect s slot := by
  have hname : (r.assign p other).name = r.name := by cases other <;> rfl
  have hin : (r.assign p other).inChannels = r.inChannels := by cases other <;> rfl
  simp only [inspect, paramIndex?_assign, bound?_assign_of_ne hne, hname, hin]

end Module

/-! ## The jacks of a graph -/

namespace Graph

variable {g h : Graph} {j k : Jack} {p q : ModuleId} {m : Module} {free : List Jack}

/-- All jacks of a graph. -/
def jacks (g : Graph) : List Jack := g.modules.flatMap Module.jacks

/-- The producer that a jack is bound to. -/
def bound? (g : Graph) (j : Jack) : Option ModuleId := (g.get? j.owner).bind (·.bound? j.slot)

/-- The graph with some jacks freed. -/
def freed (g : Graph) (free : List Jack) : Graph :=
  { g with arena := g.arena.map (Option.map (·.freed free)) }

/-- The graph with nothing bound. -/
def unwired (g : Graph) : Graph := { g with arena := g.arena.map (Option.map Module.unwired) }

/-- The calls that free every jack of a graph. -/
def clearing (g : Graph) : List Edit := g.jacks.map Jack.unplug

/-- The calls that bind the jacks of a graph as they are bound, one for each bound jack. -/
def wiring (g : Graph) : List Edit := g.jacks.filterMap fun j => (g.bound? j).map j.plug

/-- The graph after a run of edits, every one of which has to succeed. -/
def applyEach (g : Graph) (edits : List Edit) : Except GraphError Graph := edits.foldlM apply g

lemma get?_map_arena (g : Graph) (f : Module → Module) (id : ModuleId) :
    ({ g with arena := g.arena.map (Option.map f) } : Graph).get? id = (g.get? id).map f := by
  simp only [get?, Array.getElem?_map]
  cases g.arena[id.index]? with
  | none => rfl
  | some m => cases m <;> rfl

lemma get?_freed (g : Graph) (free : List Jack) (id : ModuleId) :
    (g.freed free).get? id = (g.get? id).map (·.freed free) := g.get?_map_arena _ id

@[simp] lemma freed_nil (g : Graph) : g.freed [] = g := by
  refine ext_get? rfl rfl (by simp [freed]) fun id => ?_
  rw [get?_freed]
  cases g.get? id <;> simp

lemma outputs_freed : (g.freed free).outputs = g.outputs := by
  funext id
  rw [outputs, outputs, get?_freed, Option.map_map]
  rfl

lemma WellFormed.params_nodup (hg : g.WellFormed) {id : ModuleId} (hm : g.get? id = some m) :
    (m.params.map (·.name)).Nodup := by
  rw [(hg.fits id m hm).names]
  exact (Definition.flaw?_eq_none_iff.mp (hg.fits id m hm).flawless).2.2.1

/-- Freeing jacks leaves a graph in order. -/
lemma WellFormed.freed (hg : g.WellFormed) (free : List Jack) : (g.freed free).WellFormed := by
  refine ⟨?_, ?_, ?_⟩
  · rcases hg.sink with ⟨m, hm, hname⟩
    exact ⟨m.freed free, by rw [get?_freed, hm]; rfl, hname⟩
  · intro id m hm
    rw [get?_freed] at hm
    rcases Option.map_eq_some_iff.mp hm with ⟨m₀, hm₀, rfl⟩
    exact hg.id_eq id m₀ hm₀
  · intro id m hm
    rw [get?_freed] at hm
    rcases Option.map_eq_some_iff.mp hm with ⟨m₀, hm₀, rfl⟩
    have hfits := hg.fits id m₀ hm₀
    rw [outputs_freed]
    refine ⟨hfits.definition, hfits.flawless, Module.map_name_freed.trans hfits.names, ?_, ?_⟩
    · intro p hp
      simp only [Module.freed] at hp
      split_ifs at hp
      exact hfits.mainInput p hp
    · intro q hq p hp
      rcases List.mem_map.mp hq with ⟨q₀, hq₀, rfl⟩
      simp only at hp
      split_ifs at hp
      exact hfits.binding q₀ hq₀ p hp

lemma mem_jacks_iff (hg : g.WellFormed) :
    j ∈ g.jacks ↔ ∃ m, g.get? j.owner = some m ∧ m.HasSlot j.slot := by
  rw [jacks, List.mem_flatMap]
  constructor
  · rintro ⟨m, hm, hj⟩
    rcases Module.mem_jacks_iff.mp hj with ⟨howner, hslot⟩
    exact ⟨m, howner ▸ (mem_modules_iff hg).mp hm, hslot⟩
  · rintro ⟨m, hm, hslot⟩
    have hid := hg.id_eq _ _ hm
    exact ⟨m, (mem_modules_iff hg).mpr (hid.symm ▸ hm), Module.mem_jacks_iff.mpr ⟨hid.symm, hslot⟩⟩

/-- No jack is listed twice: modules have different handles, and parameters different names. -/
lemma jacks_nodup (hg : g.WellFormed) : g.jacks.Nodup := by
  rw [jacks, List.nodup_flatMap]
  constructor
  · intro m hm
    exact Module.jacks_nodup (hg.params_nodup ((mem_modules_iff hg).mp hm))
  · refine (List.pairwise_map.mp hg.modules_nodup).imp fun {m m'} hne => ?_
    intro j hj hj'
    exact hne ((Module.mem_jacks_iff.mp hj).1.symm.trans (Module.mem_jacks_iff.mp hj').1)

/-- A bound jack is there, and its producer gives what the slot takes. -/
lemma WellFormed.exists_of_bound? (hg : g.WellFormed) (hp : g.bound? j = some p) :
    ∃ m, g.get? j.owner = some m ∧ m.bound? j.slot = some p ∧ m.HasSlot j.slot ∧
      g.outputs p = some (m.width j.slot) := by
  rcases Option.bind_eq_some_iff.mp hp with ⟨m, hm, hbound⟩
  refine ⟨m, hm, hbound, ?_⟩
  have hfits := hg.fits _ _ hm
  rcases j with ⟨id, slot⟩
  cases slot with
  | input => exact hfits.mainInput p hbound
  | param name =>
      rcases Option.bind_eq_some_iff.mp hbound with ⟨q, hq, hbinding⟩
      have hmem := List.mem_of_find?_eq_some hq
      exact ⟨⟨q, hmem, by simpa using List.find?_some hq⟩, hfits.binding q hmem p hbinding⟩

/-! ### The calls on a jack -/

/-- The graph with a jack bound or freed. -/
def assign (g : Graph) (j : Jack) (producer : Option ModuleId) : Graph :=
  g.modifyModule j.owner (·.assign producer j.slot)

/-- **When a jack can be freed**: when it is there. -/
lemma unplug_eq_ok_iff (hg : g.WellFormed) :
    g.apply j.unplug = .ok h ↔
      (∃ m, g.get? j.owner = some m ∧ m.HasSlot j.slot) ∧ h = g.assign j none := by
  rcases j with ⟨id, slot⟩
  cases slot with
  | input =>
      refine disconnect_eq_ok_iff.trans ?_
      constructor
      · rintro ⟨m, hm, hin, rfl⟩
        exact ⟨⟨m, hm, hin⟩, rfl⟩
      · rintro ⟨⟨m, hm, hin⟩, rfl⟩
        exact ⟨m, hm, hin, rfl⟩
  | param name =>
      have hassign : ∀ k m, g.get? id = some m → m.paramIndex? name = some k →
          g.modifyModule id (·.setBinding k none) = g.assign ⟨id, .param name⟩ none := by
        intro k m hm hk
        refine modifyModule_congr fun m' hm' => ?_
        cases hm.symm.trans hm'
        exact Module.setBinding_eq_assign (hg.params_nodup hm) hk none
      refine disconnectParam_eq_ok_iff.trans ?_
      constructor
      · rintro ⟨k, ⟨m, hm, hk⟩, rfl⟩
        exact ⟨⟨m, hm, Module.hasSlot_of_paramIndex? hk⟩, hassign k m hm hk⟩
      · rintro ⟨⟨m, hm, hslot⟩, rfl⟩
        rcases Module.exists_paramIndex? hslot with ⟨k, hk⟩
        exact ⟨k, ⟨m, hm, hk⟩, (hassign k m hm hk).symm⟩

/-- **When a jack can be bound**: when it is there and free, and takes what the producer gives. -/
lemma plug_eq_ok_iff (hg : g.WellFormed) :
    g.apply (j.plug p) = .ok h ↔
      (∃ m, g.get? j.owner = some m ∧ m.HasSlot j.slot ∧ g.outputs p = some (m.width j.slot) ∧
        m.bound? j.slot = none) ∧ h = g.assign j (some p) := by
  rcases j with ⟨id, slot⟩
  cases slot with
  | input =>
      refine connect_eq_ok_iff.trans ?_
      constructor
      · rintro ⟨s, m, hs, hm, -, hin, hcount, hfree, rfl⟩
        exact ⟨⟨m, hm, hin, outputs_eq_some_iff.mpr ⟨s, hs, hcount.symm⟩, hfree⟩, rfl⟩
      · rintro ⟨⟨m, hm, hin, hout, hfree⟩, rfl⟩
        rcases outputs_eq_some_iff.mp hout with ⟨s, hs, hcount⟩
        exact ⟨s, m, hs, hm, hcount ▸ hin, hin, hcount.symm, hfree, rfl⟩
  | param name =>
      have hassign : ∀ k m, g.get? id = some m → m.paramIndex? name = some k →
          g.modifyModule id (·.setBinding k (some p)) = g.assign ⟨id, .param name⟩ (some p) := by
        intro k m hm hk
        refine modifyModule_congr fun m' hm' => ?_
        cases hm.symm.trans hm'
        exact Module.setBinding_eq_assign (hg.params_nodup hm) hk (some p)
      refine connectParam_eq_ok_iff.trans ?_
      constructor
      · rintro ⟨s, m, k, hs, hm, hmono, hk, hfree, rfl⟩
        exact ⟨⟨m, hm, Module.hasSlot_of_paramIndex? hk, outputs_eq_some_iff.mpr ⟨s, hs, hmono⟩,
          (Module.bound?_of_paramIndex? hk).trans hfree⟩, hassign k m hm hk⟩
      · rintro ⟨⟨m, hm, hslot, hout, hfree⟩, rfl⟩
        rcases outputs_eq_some_iff.mp hout with ⟨s, hs, hmono⟩
        rcases Module.exists_paramIndex? hslot with ⟨k, hk⟩
        exact ⟨s, m, k, hs, hm, hmono, hk, (Module.bound?_of_paramIndex? hk).symm.trans hfree,
          (hassign k m hm hk).symm⟩

/-! ## Steps between freed graphs -/

/-- Binding or freeing a jack leads from one set of free jacks to another if it does so in its
module and the two sets are the same elsewhere. -/
lemma assign_freed (hg : g.WellFormed) {free free' : List Jack} {producer : Option ModuleId}
    (howner : ∀ m, g.get? j.owner = some m → (m.freed free).assign producer j.slot = m.freed free')
    (hother : ∀ m : Module, m.id ≠ j.owner → m.freed free = m.freed free') :
    (g.freed free).assign j producer = g.freed free' := by
  refine ext_get? rfl rfl (by simp [assign, freed, modifyModule]) fun id => ?_
  rw [assign, get?_modifyModule, get?_freed, get?_freed]
  cases hm : g.get? id with
  | none => simp
  | some m =>
      split_ifs with h
      · subst h
        simp [howner m hm]
      · have hne : m.id ≠ j.owner := by
          rw [hg.id_eq _ _ hm]
          exact Ne.symm h
        simp [hother m hne]

/-- Freeing a jack, whatever jacks are free already. -/
lemma unplug_freed (hg : g.WellFormed) (hj : j ∈ g.jacks) :
    (g.freed free).apply j.unplug = .ok (g.freed (j :: free)) := by
  rcases (mem_jacks_iff hg).mp hj with ⟨m, hm, hslot⟩
  refine (unplug_eq_ok_iff (hg.freed free)).mpr ⟨⟨m.freed free, ?_, by simpa using hslot⟩, ?_⟩
  · rw [get?_freed, hm]
    rfl
  · refine (assign_freed hg (fun m' hm' => ?_) fun m' hne => ?_).symm
    · rw [Module.assign_none_freed, hg.id_eq _ _ hm']
    · exact (Module.freed_cons_of_ne hne).symm

/-- Binding a free jack to its former producer, whatever other jacks are free. -/
lemma plug_freed (hg : g.WellFormed) (hj : j ∉ free) (hp : g.bound? j = some p) :
    (g.freed (j :: free)).apply (j.plug p) = .ok (g.freed free) := by
  rcases hg.exists_of_bound? hp with ⟨m, hm, hbound, hslot, hout⟩
  have hid : m.id = j.owner := hg.id_eq _ _ hm
  have hjack : (⟨m.id, j.slot⟩ : Jack) = j := by rw [hid]
  refine (plug_eq_ok_iff (hg.freed _)).mpr ⟨⟨m.freed (j :: free), ?_, ?_, ?_, ?_⟩, ?_⟩
  · rw [get?_freed, hm]
    rfl
  · simpa using hslot
  · rw [outputs_freed, hout, Module.width_freed]
  · rw [Module.bound?_freed, hjack]
    simp
  · refine (assign_freed hg (fun m' hm' => ?_) fun m' hne => Module.freed_cons_of_ne hne).symm
    cases hm.symm.trans hm'
    have hback := Module.assign_bound?_freed (hg.params_nodup hm) (hjack ▸ hj)
    rwa [hbound, hjack] at hback

/-! ## Runs -/

lemma applyEach_cons {e : Edit} {edits : List Edit} (he : g.apply e = .ok h) :
    g.applyEach (e :: edits) = h.applyEach edits := by
  rw [applyEach, List.foldlM_cons, he]
  rfl

/-- **A run of calls that free jacks** succeeds, and what it has freed is free. -/
theorem run_unplugs (hg : g.WellFormed) :
    ∀ (edits : List Edit) (free : List Jack), (∀ e ∈ edits, ∃ j ∈ g.jacks, e = j.unplug) →
      ∃ free', (g.freed free).applyEach edits = .ok (g.freed free') ∧
        ∀ j, j ∈ free ∨ j.unplug ∈ edits → j ∈ free'
  | [], free, _ => ⟨free, rfl, by simp⟩
  | e :: edits, free, hedits => by
      rcases hedits e (List.mem_cons_self ..) with ⟨j, hj, rfl⟩
      rcases run_unplugs hg edits (j :: free) fun e he => hedits e (List.mem_cons_of_mem _ he) with
        ⟨free', hrun, hfree⟩
      refine ⟨free', (applyEach_cons (unplug_freed hg hj)).trans hrun, ?_⟩
      rintro k (hk | hk)
      · exact hfree k (Or.inl (List.mem_cons_of_mem _ hk))
      · rcases List.mem_cons.mp hk with heq | hk
        · cases Jack.unplug_inj heq
          exact hfree j (Or.inl (List.mem_cons_self ..))
        · exact hfree k (Or.inr hk)

/-- **A run of calls that bind jacks as they are bound in `g`** leads to `g`, from the graph in
which these jacks are free. -/
theorem run_plugs (hg : g.WellFormed) :
    ∀ edits : List Edit, edits.Nodup → (∀ e ∈ edits, ∃ j p, g.bound? j = some p ∧ e = j.plug p) →
      ∃ free, (g.freed free).applyEach edits = .ok g ∧ ∀ j, j ∈ free ↔ ∃ p, j.plug p ∈ edits
  | [], _, _ => ⟨[], by rw [freed_nil]; rfl, by simp⟩
  | e :: edits, hnodup, hedits => by
      rcases List.nodup_cons.mp hnodup with ⟨hnew, hrest⟩
      rcases hedits e (List.mem_cons_self ..) with ⟨j, p, hp, rfl⟩
      rcases run_plugs hg edits hrest fun e he => hedits e (List.mem_cons_of_mem _ he) with
        ⟨free, hrun, hfree⟩
      -- a second call for the same jack would be the same call
      have hj : j ∉ free := by
        intro hj
        rcases (hfree j).mp hj with ⟨q, hq⟩
        rcases hedits _ (List.mem_cons_of_mem _ hq) with ⟨k, q', hq', heq⟩
        rcases Jack.plug_inj heq with ⟨rfl, rfl⟩
        cases hp.symm.trans hq'
        exact hnew hq
      refine ⟨j :: free, (applyEach_cons (plug_freed hg hj hp)).trans hrun, ?_⟩
      intro k
      rw [List.mem_cons, hfree k]
      constructor
      · rintro (rfl | ⟨q, hq⟩)
        · exact ⟨p, List.mem_cons_self ..⟩
        · exact ⟨q, List.mem_cons_of_mem _ hq⟩
      · rintro ⟨q, hq⟩
        rcases List.mem_cons.mp hq with heq | hq
        · exact Or.inl (Jack.plug_inj heq).1
        · exact Or.inr ⟨q, hq⟩

/-- With all bound jacks freed, nothing is bound. -/
lemma freed_eq_unwired (hg : g.WellFormed) (hfree : ∀ j p, g.bound? j = some p → j ∈ free) :
    g.freed free = g.unwired := by
  refine ext_get? rfl rfl (by simp [freed, unwired]) fun id => ?_
  rw [get?_freed, unwired, get?_map_arena]
  cases hm : g.get? id with
  | none => rfl
  | some m =>
      refine congrArg some (Module.freed_eq_unwired (hg.params_nodup hm) fun slot p hp => ?_)
      refine hfree ⟨m.id, slot⟩ p ?_
      rw [bound?, hg.id_eq _ _ hm, hm]
      exact hp

lemma mem_wiring_iff (hg : g.WellFormed) {e : Edit} :
    e ∈ g.wiring ↔ ∃ j p, g.bound? j = some p ∧ e = j.plug p := by
  rw [wiring, List.mem_filterMap]
  constructor
  · rintro ⟨j, -, he⟩
    rcases Option.map_eq_some_iff.mp he with ⟨p, hp, rfl⟩
    exact ⟨j, p, hp, rfl⟩
  · rintro ⟨j, p, hp, rfl⟩
    rcases hg.exists_of_bound? hp with ⟨m, hm, -, hslot, -⟩
    exact ⟨j, (mem_jacks_iff hg).mpr ⟨m, hm, hslot⟩, by rw [hp]; rfl⟩

lemma wiring_nodup (hg : g.WellFormed) : g.wiring.Nodup := by
  refine (jacks_nodup hg).filterMap fun j k e hj hk => ?_
  rcases Option.map_eq_some_iff.mp hj with ⟨p, -, rfl⟩
  rcases Option.map_eq_some_iff.mp hk with ⟨q, -, heq⟩
  exact (Jack.plug_inj heq).1.symm

/-! ## Calls that do not notice each other -/

lemma modifyModule_comm {id other : ModuleId} {f f' : Module → Module}
    (h : id = other → ∀ m, f (f' m) = f' (f m)) :
    (g.modifyModule id f).modifyModule other f' = (g.modifyModule other f').modifyModule id f := by
  refine ext_get? rfl rfl (by simp [modifyModule]) fun x => ?_
  simp only [get?_modifyModule]
  by_cases hid : id = x
  · by_cases hother : other = x
    · have hcomm := h (hid.trans hother.symm)
      simp [hid, hother, Function.comp_def, hcomm]
    · simp [hid, hother]
  · by_cases hother : other = x <;> simp [hid, hother]

lemma slot_ne_of_ne (hne : j ≠ k) (howner : j.owner = k.owner) : j.slot ≠ k.slot := by
  intro hslot
  cases j
  cases k
  simp_all

lemma assign_assign_comm (hne : j ≠ k) (p q : Option ModuleId) :
    (g.assign j p).assign k q = (g.assign k q).assign j p := by
  refine modifyModule_comm fun howner m => ?_
  exact (Module.assign_comm (slot_ne_of_ne hne howner) p q m).symm

/-- **A connection call** finds the two modules, checks them and binds the jack. -/
lemma apply_plug_eq (hg : g.WellFormed) (j : Jack) (p : ModuleId) :
    g.apply (j.plug p) = (do
      let sender ← g.get p
      let receiver ← g.get j.owner
      receiver.inspect sender j.slot
      return g.assign j (some p)) := by
  rcases j with ⟨id, slot⟩
  cases slot with
  | input =>
      simp only [Jack.plug, apply, connect, endpoints, Module.inspect, bind_assoc, pure_bind]
      rfl
  | param name =>
      simp only [Jack.plug, apply, connectParam, endpoints, Module.inspect, bind_assoc, pure_bind]
      refine bind_congr fun s => bind_congr_of_ok fun r hr => ?_
      refine bind_congr fun _ => bind_congr fun _ => ?_
      have hnames := hg.params_nodup (get_eq_ok_iff.mp hr)
      cases hk : r.paramIndex? name with
      | none => rfl
      | some k =>
          have hassign : g.modifyModule id (·.setBinding k (some p)) =
              g.assign ⟨id, .param name⟩ (some p) := by
            refine modifyModule_congr fun m hm => ?_
            cases hm.symm.trans (get_eq_ok_iff.mp hr)
            exact Module.setBinding_eq_assign hnames hk (some p)
          simp only [Module.bound?_of_paramIndex? hk, hassign]
          rfl

/-- Binding or freeing a jack has no effect on a connection call for another one, be it that the
call succeeds or that it is refused. -/
lemma apply_plug_assign (hg : g.WellFormed) (hne : j ≠ k) {producer : Option ModuleId}
    (hh : (g.assign j producer).WellFormed) :
    (g.assign j producer).apply (k.plug q) = (g.apply (k.plug q)).map (·.assign j producer) := by
  have hget : ∀ id, (g.assign j producer).get id =
      (g.get id).map fun m => if j.owner = id then m.assign producer j.slot else m := by
    intro id
    rw [get, get, assign, get?_modifyModule]
    split_ifs
    · cases g.get? id <;> rfl
    · cases g.get? id <;> rfl
  rw [apply_plug_eq hg, apply_plug_eq hh, hget, hget]
  cases g.get q with
  | error e => rfl
  | ok s =>
      cases g.get k.owner with
      | error e => rfl
      | ok r =>
          have hinspect : (if j.owner = k.owner then r.assign producer j.slot else r).inspect
              (if j.owner = q then s.assign producer j.slot else s) k.slot =
                r.inspect s k.slot := by
            have hsender : ∀ r : Module,
                r.inspect (if j.owner = q then s.assign producer j.slot else s) k.slot =
                  r.inspect s k.slot := by
              intro r
              split_ifs
              · exact Module.inspect_assign_sender r s producer
              · rfl
            rw [hsender]
            split_ifs with howner
            · exact Module.inspect_assign_receiver (slot_ne_of_ne hne howner) r s producer
            · rfl
          change (Module.inspect _ _ k.slot >>= fun _ => pure _) =
            (r.inspect s k.slot >>= fun _ => pure (g.assign k (some q))).map _
          rw [hinspect]
          cases r.inspect s k.slot with
          | error e => rfl
          | ok _ => exact congrArg Except.ok (assign_assign_comm hne producer (some q))

lemma Reachable.apply (hg : g.Reachable) {e : Edit} (he : g.apply e = .ok h) : h.Reachable := by
  have hone : g.applyAll [e] = h := by simp [Graph.applyAll, next_of_ok he]
  exact hone ▸ hg.applyAll [e]

/-- **Connections of different jacks do not notice each other.**  After one of them has been made,
the other leads to what it leads to before it, be it a graph or an error. -/
theorem apply_plug_comm (hg : g.Reachable) (hne : j ≠ k) (hj : g.apply (j.plug p) = .ok h) :
    h.apply (k.plug q) = g.apply (k.plug q) >>= (·.apply (j.plug p)) := by
  have hwf := hg.wellFormed
  obtain ⟨-, rfl⟩ := (plug_eq_ok_iff hwf).mp hj
  rw [apply_plug_assign hwf hne (hg.apply hj).wellFormed]
  cases hk : g.apply (k.plug q) with
  | error e => rfl
  | ok g' =>
      obtain ⟨-, rfl⟩ := (plug_eq_ok_iff hwf).mp hk
      have hback := apply_plug_assign (q := p) hwf hne.symm (hg.apply hk).wellFormed
      rw [hj] at hback
      change _ = (g.assign k (some q)).apply (j.plug p)
      rw [hback]
      exact congrArg Except.ok (assign_assign_comm hne.symm (some q) (some p))

/-! ## The whole wiring -/

/-- **Every wiring can be rebuilt in any order.**  In a graph that can come about, the calls that
free all jacks succeed in whatever order they are made, and lead to the same modules with nothing
bound.  From there, the calls that bind what was bound succeed in whatever order they are made, and
lead back to the graph.  So connection calls for different jacks commute, whether they succeed or
are refused, and a bound jack can be freed and bound again. -/
theorem wiring_rebuilt (hg : g.Reachable) :
    (∀ edits, edits.Perm g.clearing → g.applyEach edits = .ok g.unwired) ∧
    (∀ edits, edits.Perm g.wiring → g.unwired.applyEach edits = .ok g) ∧
    (∀ (j k : Jack) (p q : ModuleId) (h : Graph), j ≠ k → g.apply (j.plug p) = .ok h →
      h.apply (k.plug q) = g.apply (k.plug q) >>= (·.apply (j.plug p))) ∧
    (∀ (j : Jack) (p : ModuleId), g.bound? j = some p →
      ∃ h, g.apply j.unplug = .ok h ∧ h.apply (j.plug p) = .ok g) := by
  have hwf := hg.wellFormed
  refine ⟨?_, ?_, fun j k p q h hne hj => apply_plug_comm hg hne hj, ?_⟩
  · intro edits hperm
    have hedits : ∀ e ∈ edits, ∃ j ∈ g.jacks, e = j.unplug := by
      intro e he
      rcases List.mem_map.mp (hperm.mem_iff.mp he) with ⟨j, hj, rfl⟩
      exact ⟨j, hj, rfl⟩
    rcases run_unplugs hwf edits [] hedits with ⟨free, hrun, hfree⟩
    rw [freed_nil] at hrun
    rw [hrun, freed_eq_unwired hwf fun j p hp => ?_]
    rcases hwf.exists_of_bound? hp with ⟨m, hm, -, hslot, -⟩
    have hj := (mem_jacks_iff hwf).mpr ⟨m, hm, hslot⟩
    exact hfree j (Or.inr (hperm.mem_iff.mpr (List.mem_map_of_mem hj)))
  · intro edits hperm
    have hnodup := hperm.nodup_iff.mpr (wiring_nodup hwf)
    rcases run_plugs hwf edits hnodup fun e he => (mem_wiring_iff hwf).mp (hperm.mem_iff.mp he) with
      ⟨free, hrun, hfree⟩
    rw [freed_eq_unwired hwf fun j p hp => ?_] at hrun
    · exact hrun
    · exact (hfree j).mpr ⟨p, hperm.mem_iff.mpr ((mem_wiring_iff hwf).mpr ⟨j, p, hp, rfl⟩)⟩
  · intro j p hp
    rcases hwf.exists_of_bound? hp with ⟨m, hm, -, hslot, -⟩
    have hunplug : (g.freed []).apply j.unplug = .ok (g.freed [j]) :=
      unplug_freed hwf ((mem_jacks_iff hwf).mpr ⟨m, hm, hslot⟩)
    have hplug : (g.freed [j]).apply (j.plug p) = .ok (g.freed []) :=
      plug_freed hwf List.not_mem_nil hp
    rw [freed_nil] at hunplug hplug
    exact ⟨_, hunplug, hplug⟩

/-- The demo patch is taken apart from its end and wired again, the second oscillator first. -/
theorem wiring_rebuilt_demo :
    demo.wiring = [.connect ⟨4⟩ .sink, .connect ⟨1⟩ ⟨2⟩, .connect ⟨2⟩ ⟨4⟩,
      .connectParam ⟨3⟩ ⟨4⟩ "gain"] ∧
    demo.applyEach demo.clearing.reverse = .ok demo.unwired ∧
    demo.unwired.applyEach [.connectParam ⟨3⟩ ⟨4⟩ "gain", .connect ⟨1⟩ ⟨2⟩, .connect ⟨4⟩ .sink,
      .connect ⟨2⟩ ⟨4⟩] = .ok demo ∧
    ∃ h, demo.apply (.disconnect ⟨4⟩) = .ok h ∧ h.apply (.connect ⟨2⟩ ⟨4⟩) = .ok demo := by
  have hwiring : demo.wiring = [.connect ⟨4⟩ .sink, .connect ⟨1⟩ ⟨2⟩, .connect ⟨2⟩ ⟨4⟩,
      .connectParam ⟨3⟩ ⟨4⟩ "gain"] := by decide +kernel
  rcases wiring_rebuilt demo_reachable with ⟨hclear, hrebuild, -, hagain⟩
  refine ⟨hwiring, hclear _ (List.reverse_perm _), hrebuild _ ?_, ?_⟩
  · rw [hwiring]
    decide
  · exact hagain ⟨⟨4⟩, .input⟩ ⟨2⟩ (by decide +kernel)

end Graph

end Patchbay
