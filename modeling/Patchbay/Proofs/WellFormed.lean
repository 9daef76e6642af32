import Patchbay.Proofs.Reachable
import Mathlib.Data.List.Nodup
import Mathlib.Data.List.ReduceOption

/-!
# What holds of every graph

A graph is a web of handles, and every edit has to leave it without loose ends.  This file states
what "without loose ends" means, shows that opening a graph establishes it and that every edit keeps
it, and so that it holds of every graph that can come about.

* `Definition.flaw?_eq_none_iff` — what a definition without flaws is.
* `Module.Fits` — **a module in order**: an instance of a definition of the catalog, bound only to
  producers that give what its slots take.  What the producers give is a parameter of the notion,
  so that a change to one module can be followed through the slots of all others.
* `Graph.WellFormed` — a graph in order: the sink is there, every module is in order and lies at the
  place of its handle.
* `Graph.Outcome` — what a successful edit can do, said once for all edits.
* `Graph.WellFormed.apply`, `Graph.Reachable.wellFormed` — one edit keeps it, hence every run.
-/

namespace Patchbay

/-! ## Definitions without flaws -/

namespace Definition

lemma firstRepeat?_eq_none_iff :
    ∀ seen names : List String,
      firstRepeat? seen names = none ↔ names.Nodup ∧ ∀ name ∈ names, name ∉ seen
  | seen, [] => by simp [firstRepeat?]
  | seen, name :: names => by
      rw [firstRepeat?]
      split_ifs with hseen
      · simp [hseen]
      · rw [firstRepeat?_eq_none_iff, List.nodup_cons]
        simp only [List.mem_append, List.mem_singleton, not_or, List.forall_mem_cons]
        constructor
        · rintro ⟨hnodup, hnew⟩
          exact ⟨⟨fun h => (hnew name h).2 rfl, hnodup⟩, hseen, fun n hn => (hnew n hn).1⟩
        · rintro ⟨⟨hfirst, hnodup⟩, -, hrest⟩
          exact ⟨hnodup, fun n hn => ⟨hrest n hn, fun h => hfirst (h ▸ hn)⟩⟩

lemma channelFlaw?_eq_none_iff {d : Definition} :
    d.channelFlaw? = none ↔ d.inChannels ≤ 2 ∧ d.outChannels ≤ 2 := by
  rw [channelFlaw?, maxChannels]
  split_ifs with h
  · simp only [false_iff, not_and_or, UInt8.not_le]
    exact h
  · simpa only [true_iff, not_or, UInt8.not_lt] using h

lemma defaultFlaw?_eq_none_iff {d : Definition} :
    d.defaultFlaw? = none ↔ ∀ ds, d.paramDefaults = some ds → ds.length = d.paramCount := by
  rw [defaultFlaw?]
  cases d.paramDefaults <;> simp

lemma nameFlaw?_eq_none_iff {d : Definition} : d.nameFlaw? = none ↔ d.paramNames.Nodup := by
  simp [nameFlaw?, firstRepeat?_eq_none_iff]

lemma sinkFlaw?_eq_none_iff {d : Definition} :
    d.sinkFlaw? = none ↔ (d.name = sinkName → d.outChannels = 0) := by
  simp [sinkFlaw?, isSink]

/-- **A definition without flaws**: at most stereo, as many defaults as parameters or none, every
parameter name once, and no output on the sink. -/
theorem flaw?_eq_none_iff {d : Definition} :
    d.flaw? = none ↔
      (d.inChannels ≤ 2 ∧ d.outChannels ≤ 2) ∧
      (∀ ds, d.paramDefaults = some ds → ds.length = d.paramCount) ∧
      d.paramNames.Nodup ∧ (d.name = sinkName → d.outChannels = 0) := by
  rw [flaw?, ← channelFlaw?_eq_none_iff, ← defaultFlaw?_eq_none_iff, ← nameFlaw?_eq_none_iff,
    ← sinkFlaw?_eq_none_iff]
  simp

end Definition

/-- A catalog holds flawless definitions only. -/
lemma Catalog.Reachable.flaw?_eq_none {c : Catalog} (hc : c.Reachable) :
    ∀ name d, c.get? name = some d → d.flaw? = none := by
  refine hc.induction (P := fun c => ∀ name d, c.get? name = some d → d.flaw? = none) ?_ ?_ ?_
  · intro name d h
    simp [empty, get?] at h
  · intro name d h
    have hd : Definition.sink = d := by
      simp only [withSink, get?, List.find?_singleton] at h
      split_ifs at h
      exact Option.some.inj h
    subst hd
    rfl
  · intro c e hc hflaw name d h
    rw [get?_insert] at h
    split_ifs at h
    · cases h
      exact hflaw
    · exact hc name d h

/-! ## Modules in order -/

namespace Module

/-- **A module in order.**  `catalog` is where its definition has to come from, and `outputs` says
how many channels each producer gives: as many as the main input takes, and one for a parameter. -/
structure Fits (catalog : Catalog) (outputs : ModuleId → Option UInt8) (m : Module) : Prop where
  definition : catalog.get? m.definition.name = some m.definition
  flawless : m.definition.flaw? = none
  names : m.params.map (·.name) = m.definition.paramNames
  mainInput : ∀ p, m.mainInput = some p → m.inChannels ≠ 0 ∧ outputs p = some m.inChannels
  binding : ∀ q ∈ m.params, ∀ p, q.binding = some p → outputs p = some 1

variable {catalog : Catalog} {outputs outputs' : ModuleId → Option UInt8} {m : Module}

lemma Fits.mono (hm : m.Fits catalog outputs)
    (h : ∀ p n, outputs p = some n → outputs' p = some n) : m.Fits catalog outputs' where
  definition := hm.definition
  flawless := hm.flawless
  names := hm.names
  mainInput := fun p hp => ⟨(hm.mainInput p hp).1, h p _ (hm.mainInput p hp).2⟩
  binding := fun q hq p hp => h p _ (hm.binding q hq p hp)

lemma fits_instantiate (id : ModuleId) {d : Definition} (hd : catalog.get? d.name = some d)
    (hflaw : d.flaw? = none) : (instantiate id d).Fits catalog outputs where
  definition := hd
  flawless := hflaw
  names := by
    refine List.ext_getElem? fun k => ?_
    simp [instantiate, List.getElem?_mapIdx, Function.comp_def]
  mainInput := fun p hp => by simp [instantiate] at hp
  binding := fun q hq p hp => by
    obtain ⟨k, hk, rfl⟩ := List.mem_mapIdx.mp hq
    cases hp

lemma Fits.setName (hm : m.Fits catalog outputs) (name : String) :
    (m.setName name).Fits catalog outputs :=
  ⟨hm.definition, hm.flawless, hm.names, hm.mainInput, hm.binding⟩

lemma Fits.setMainInput (hm : m.Fits catalog outputs) {producer : Option ModuleId}
    (h : ∀ p, producer = some p → m.inChannels ≠ 0 ∧ outputs p = some m.inChannels) :
    (m.setMainInput producer).Fits catalog outputs :=
  ⟨hm.definition, hm.flawless, hm.names, h, hm.binding⟩

/-- Other parameters of the same names leave a module in order if what they are bound to does. -/
lemma Fits.withParams (hm : m.Fits catalog outputs) {params : List Param}
    (hnames : params.map (·.name) = m.params.map (·.name))
    (hbinding : ∀ q ∈ params, ∀ p, q.binding = some p → outputs p = some 1) :
    ({ m with params := params } : Module).Fits catalog outputs :=
  ⟨hm.definition, hm.flawless, hnames.trans hm.names, hm.mainInput, hbinding⟩

lemma map_name_modify {params : List Param} {change : Param → Param} (k : Nat)
    (h : ∀ q, (change q).name = q.name) :
    (params.modify k change).map (·.name) = params.map (·.name) := by
  refine List.ext_getElem? fun j => ?_
  simp only [List.getElem?_map, List.getElem?_modify]
  cases params[j]? with
  | none => rfl
  | some q =>
      simp only [Option.map_some, Option.map_eq_map]
      split_ifs <;> simp [h]

lemma mem_modify {params : List Param} {change : Param → Param} {k : Nat} {q : Param}
    (h : q ∈ params.modify k change) : q ∈ params ∨ ∃ q₀ ∈ params, q = change q₀ := by
  obtain ⟨j, hj⟩ := List.mem_iff_getElem?.mp h
  rw [List.getElem?_modify] at hj
  cases hq : params[j]? with
  | none => simp [hq] at hj
  | some q₀ =>
      have hmem : q₀ ∈ params := List.mem_of_getElem? hq
      simp only [hq, Option.map_eq_map, Option.map_some, Option.some.injEq] at hj
      split_ifs at hj
      · exact Or.inr ⟨q₀, hmem, hj.symm⟩
      · exact Or.inl (hj ▸ hmem)

lemma Fits.setValue (hm : m.Fits catalog outputs) (k : Nat) (value : Binary32) :
    (m.setValue k value).Fits catalog outputs := by
  refine hm.withParams (map_name_modify k fun _ => rfl) ?_
  intro q hq p hp
  rcases mem_modify hq with hq | ⟨q₀, hq₀, rfl⟩
  · exact hm.binding q hq p hp
  · exact hm.binding q₀ hq₀ p hp

lemma Fits.setBinding (hm : m.Fits catalog outputs) (k : Nat) {producer : Option ModuleId}
    (h : ∀ p, producer = some p → outputs p = some 1) :
    (m.setBinding k producer).Fits catalog outputs := by
  refine hm.withParams (map_name_modify k fun _ => rfl) ?_
  intro q hq p hp
  rcases mem_modify hq with hq | ⟨q₀, -, rfl⟩
  · exact hm.binding q hq p hp
  · exact h p hp

/-- A slot that is still bound after a release was bound before, and not to what was released. -/
lemma release_eq_some_iff {target p : ModuleId} {binding : Option ModuleId} :
    release target binding = some p ↔ binding = some p ∧ p ≠ target := by
  rw [release]
  split_ifs with h
  · subst h
    simp [eq_comm]
  · constructor
    · rintro rfl
      exact ⟨rfl, fun hp => h (congrArg some hp)⟩
    · rintro ⟨rfl, -⟩
      rfl

/-- A module is in order without a producer once its slots have let go of it. -/
lemma Fits.clearReferences (hm : m.Fits catalog outputs) (target : ModuleId)
    (h : ∀ p n, outputs p = some n → p ≠ target → outputs' p = some n) :
    (m.clearReferences target).Fits catalog outputs' where
  definition := hm.definition
  flawless := hm.flawless
  names := by
    refine Eq.trans ?_ hm.names
    simp [Module.clearReferences, Function.comp_def]
  mainInput := fun p hp => by
    obtain ⟨hp, hne⟩ := release_eq_some_iff.mp hp
    exact ⟨(hm.mainInput p hp).1, h p _ (hm.mainInput p hp).2 hne⟩
  binding := fun q hq p hp => by
    obtain ⟨q₀, hq₀, rfl⟩ := List.mem_map.mp hq
    obtain ⟨hp, hne⟩ := release_eq_some_iff.mp hp
    exact h p _ (hm.binding q₀ hq₀ p hp) hne

end Module

/-! ## Graphs in order -/

namespace Graph

def outputs (g : Graph) (id : ModuleId) : Option UInt8 := (g.get? id).map (·.outChannels)

/-- **A graph in order**: it has its sink, and every module is in order and knows its own handle. -/
structure WellFormed (g : Graph) : Prop where
  sink : ∃ m, g.get? .sink = some m ∧ m.definition.name = sinkName
  id_eq : ∀ id m, g.get? id = some m → m.id = id
  fits : ∀ id m, g.get? id = some m → m.Fits g.catalog g.outputs

variable {g h : Graph}

lemma outputs_eq_some_iff {id : ModuleId} {n : UInt8} :
    g.outputs id = some n ↔ ∃ m, g.get? id = some m ∧ m.outChannels = n := by
  simp [outputs]

/-! ### Opening a graph -/

lemma WellFormed.of_new {c : Catalog} (hc : c.Reachable) (hnew : Graph.new c = .ok g) :
    g.WellFormed := by
  obtain ⟨d, hd, rfl⟩ := new_eq_ok_iff.mp hnew
  have hname : d.name = sinkName := Catalog.name_of_get? hd
  have hget : ∀ id m, Graph.get? ⟨"", c, #[some ((Module.instantiate .sink d).setName
      sinkDisplayName)]⟩ id = some m →
      id = .sink ∧ m = (Module.instantiate .sink d).setName sinkDisplayName := by
    rintro ⟨k⟩ m hm
    rw [get?_eq_some_iff, List.getElem?_toArray, List.getElem?_singleton] at hm
    split_ifs at hm with hk
    subst hk
    exact ⟨rfl, (Option.some.inj (Option.some.inj hm)).symm⟩
  refine ⟨⟨_, rfl, hname⟩, ?_, ?_⟩
  · intro id m hm
    obtain ⟨rfl, rfl⟩ := hget id m hm
    rfl
  · intro id m hm
    obtain ⟨rfl, rfl⟩ := hget id m hm
    refine (Module.fits_instantiate _ ?_ (hc.flaw?_eq_none _ _ hd)).setName _
    rw [hname]
    exact hd

/-! ### Changing one module -/

/-- A change that keeps definitions keeps what every producer gives. -/
lemma outputs_modifyModule {id : ModuleId} {change : Module → Module}
    (hdefinition : ∀ m, (change m).definition = m.definition) :
    (g.modifyModule id change).outputs = g.outputs := by
  funext other
  rw [outputs, outputs, get?_modifyModule]
  split_ifs
  · cases g.get? other with
    | none => rfl
    | some m => simp [Module.outChannels, hdefinition]
  · rfl

/-- **Changing one module** leaves the graph in order if the module stays in order and keeps its
handle and its definition. -/
lemma WellFormed.modifyModule (hg : g.WellFormed) {id : ModuleId} {change : Module → Module}
    (hid : ∀ m, (change m).id = m.id) (hdefinition : ∀ m, (change m).definition = m.definition)
    (hfits : ∀ m, g.get? id = some m → m.Fits g.catalog g.outputs →
      (change m).Fits g.catalog g.outputs) :
    (g.modifyModule id change).WellFormed := by
  have hget : ∀ other m, (g.modifyModule id change).get? other = some m →
      g.get? other = some m ∨ id = other ∧ ∃ m₀, g.get? other = some m₀ ∧ m = change m₀ := by
    intro other m hm
    rw [get?_modifyModule] at hm
    split_ifs at hm with h
    · obtain ⟨m₀, hm₀, rfl⟩ := Option.map_eq_some_iff.mp hm
      exact Or.inr ⟨h, m₀, hm₀, rfl⟩
    · exact Or.inl hm
  refine ⟨?_, ?_, ?_⟩
  · obtain ⟨m, hm, hname⟩ := hg.sink
    rw [get?_modifyModule]
    split_ifs
    · exact ⟨change m, by simp [hm], by rw [hdefinition]; exact hname⟩
    · exact ⟨m, hm, hname⟩
  · intro other m hm
    rcases hget other m hm with hm | ⟨-, m₀, hm₀, rfl⟩
    · exact hg.id_eq other m hm
    · rw [hid]
      exact hg.id_eq other m₀ hm₀
  · intro other m hm
    rw [outputs_modifyModule hdefinition]
    rcases hget other m hm with hm | ⟨rfl, m₀, hm₀, rfl⟩
    · exact hg.fits other m hm
    · exact hfits m₀ hm₀ (hg.fits id m₀ hm₀)

/-! ### Adding a module -/

lemma get?_push (g : Graph) (m : Module) (id : ModuleId) :
    ({ g with arena := g.arena.push (some m) } : Graph).get? id =
      if id = g.nextId then some m else g.get? id := by
  obtain ⟨k⟩ := id
  simp only [get?, nextId, Array.getElem?_push, ModuleId.mk.injEq]
  split_ifs <;> rfl

lemma get?_nextId (g : Graph) : g.get? g.nextId = none := by
  simp [get?, nextId]

lemma WellFormed.add (hg : g.WellFormed) {d : Definition}
    (hd : g.catalog.get? d.name = some d) (hflaw : d.flaw? = none) :
    ({ g with arena := g.arena.push (some (.instantiate g.nextId d)) } : Graph).WellFormed := by
  have hkept : ∀ id m, g.get? id = some m → id ≠ g.nextId := by
    rintro id m hm rfl
    simp [get?_nextId] at hm
  refine ⟨?_, ?_, ?_⟩
  · obtain ⟨m, hm, hname⟩ := hg.sink
    exact ⟨m, by rw [get?_push, if_neg (hkept _ _ hm)]; exact hm, hname⟩
  · intro id m hm
    rw [get?_push] at hm
    split_ifs at hm with h
    · cases hm
      exact h.symm
    · exact hg.id_eq id m hm
  · intro id m hm
    rw [get?_push] at hm
    split_ifs at hm with h
    · cases hm
      exact Module.fits_instantiate _ hd hflaw
    · refine (hg.fits id m hm).mono fun p n hp => ?_
      obtain ⟨q, hq, hn⟩ := outputs_eq_some_iff.mp hp
      exact outputs_eq_some_iff.mpr ⟨q, by rw [get?_push, if_neg (hkept _ _ hq)]; exact hq, hn⟩

/-! ### Removing a module -/

/-- Removing a module empties its place and frees the slots of the others. -/
lemma get?_without (g : Graph) (id other : ModuleId) :
    (g.without id).get? other =
      if other = id then none else (g.get? other).map (·.clearReferences id) := by
  obtain ⟨i⟩ := id
  obtain ⟨j⟩ := other
  simp only [get?, without, Array.getElem?_setIfInBounds, Array.getElem?_map, Array.size_map,
    ModuleId.mk.injEq]
  by_cases h : i = j
  · subst h
    by_cases hi : i < g.arena.size <;> simp [hi]
  · rw [if_neg h, if_neg (Ne.symm h)]
    cases g.arena[j]? with
    | none => rfl
    | some m => cases m <;> rfl

lemma get?_without_eq_some_iff {id other : ModuleId} {m : Module} :
    (g.without id).get? other = some m ↔
      other ≠ id ∧ ∃ m₀, g.get? other = some m₀ ∧ m₀.clearReferences id = m := by
  rw [get?_without]
  split_ifs with hother
  · simp [hother]
  · simp [hother]

lemma WellFormed.without (hg : g.WellFormed) {id : ModuleId} (hid : id ≠ .sink) :
    (g.without id).WellFormed := by
  refine ⟨?_, ?_, ?_⟩
  · obtain ⟨m, hm, hname⟩ := hg.sink
    refine ⟨m.clearReferences id, ?_, hname⟩
    rw [get?_without, if_neg (Ne.symm hid), hm]
    rfl
  · intro other m hm
    obtain ⟨-, m₀, hm₀, rfl⟩ := get?_without_eq_some_iff.mp hm
    exact hg.id_eq other m₀ hm₀
  · intro other m hm
    obtain ⟨-, m₀, hm₀, rfl⟩ := get?_without_eq_some_iff.mp hm
    refine (hg.fits other m₀ hm₀).clearReferences id fun p n hp hne => ?_
    obtain ⟨q, hq, hn⟩ := outputs_eq_some_iff.mp hp
    refine outputs_eq_some_iff.mpr ⟨q.clearReferences id, ?_, hn⟩
    rw [get?_without, if_neg hne, hq]
    rfl

/-! ### Every edit, every run -/

def Edit.isAdd : Edit → Bool
  | .add _ => true
  | _ => false

/-- **What a successful edit can do to a graph.**  Edits of names, values and slots are of one kind:
they change one module, which keeps its handle and its definition and stays in order. -/
inductive Outcome (g : Graph) : Edit → Graph → Prop where
  | added {name : String} {d : Definition} (hd : g.catalog.get? name = some d) :
      Outcome g (.add name) { g with arena := g.arena.push (some (.instantiate g.nextId d)) }
  | removed {id : ModuleId} (hid : id ≠ .sink) : Outcome g (.remove id) (g.without id)
  | renamed {name : String} : Outcome g (.setName name) (g.setName name)
  | modified {e : Edit} {id : ModuleId} {change : Module → Module} (hadd : e.isAdd = false)
      (hid : ∀ m, (change m).id = m.id) (hdefinition : ∀ m, (change m).definition = m.definition)
      (hfits : ∀ m, g.get? id = some m → m.Fits g.catalog g.outputs →
        (change m).Fits g.catalog g.outputs) :
      Outcome g e (g.modifyModule id change)

/-- Every successful edit has one of these outcomes. -/
theorem outcome_of_apply {e : Edit} (he : g.apply e = .ok h) : Outcome g e h := by
  cases e with
  | add definition =>
      obtain ⟨d, hd, rfl⟩ := add_eq_ok_iff.mp he
      exact .added hd
  | remove id =>
      obtain ⟨-, hid, rfl⟩ := remove_eq_ok_iff.mp he
      exact .removed hid
  | rename id name =>
      obtain ⟨-, rfl⟩ := rename_eq_ok_iff.mp he
      exact .modified rfl (fun _ => rfl) (fun _ => rfl) fun m _ hm => hm.setName name
  | setName name =>
      cases he
      exact .renamed
  | setParam id param value =>
      obtain ⟨k, -, rfl⟩ := setParam_eq_ok_iff.mp he
      exact .modified rfl (fun _ => rfl) (fun _ => rfl) fun m _ hm => hm.setValue k value
  | connect source target =>
      obtain ⟨s, r, hs, hr, -, hin, hcount, -, rfl⟩ := connect_eq_ok_iff.mp he
      refine .modified rfl (fun _ => rfl) (fun _ => rfl) fun m hm hfits => ?_
      cases hr.symm.trans hm
      refine hfits.setMainInput fun p hp => ?_
      cases hp
      exact ⟨hin, outputs_eq_some_iff.mpr ⟨s, hs, hcount.symm⟩⟩
  | connectParam source target param =>
      obtain ⟨s, r, k, hs, -, hmono, -, -, rfl⟩ := connectParam_eq_ok_iff.mp he
      refine .modified rfl (fun _ => rfl) (fun _ => rfl) fun m _ hm => hm.setBinding k ?_
      intro p hp
      cases hp
      exact outputs_eq_some_iff.mpr ⟨s, hs, hmono⟩
  | disconnect target =>
      obtain ⟨r, -, -, rfl⟩ := disconnect_eq_ok_iff.mp he
      refine .modified rfl (fun _ => rfl) (fun _ => rfl) fun m _ hm => hm.setMainInput ?_
      intro p hp
      cases hp
  | disconnectParam target param =>
      obtain ⟨k, -, rfl⟩ := disconnectParam_eq_ok_iff.mp he
      refine .modified rfl (fun _ => rfl) (fun _ => rfl) fun m _ hm => hm.setBinding k ?_
      intro p hp
      cases hp

lemma catalog_apply {e : Edit} (he : g.apply e = .ok h) : h.catalog = g.catalog := by
  cases outcome_of_apply he <;> rfl

/-- The arena grows by one place with a module that is added and never shrinks. -/
lemma size_apply {e : Edit} (he : g.apply e = .ok h) :
    h.arena.size = g.arena.size + if e.isAdd then 1 else 0 := by
  cases outcome_of_apply he with
  | added hd => simp [Edit.isAdd]
  | removed hid => simp [Edit.isAdd, Graph.without]
  | renamed => rfl
  | modified hadd => simp [hadd, Graph.modifyModule]

/-- **An edit keeps a graph in order**, on a catalog of flawless definitions. -/
theorem WellFormed.apply (hg : g.WellFormed)
    (hcatalog : ∀ name d, g.catalog.get? name = some d → d.flaw? = none) {e : Edit}
    (he : g.apply e = .ok h) : h.WellFormed := by
  cases outcome_of_apply he with
  | added hd =>
      refine hg.add ?_ (hcatalog _ _ hd)
      rw [Catalog.name_of_get? hd]
      exact hd
  | removed hid => exact hg.without hid
  | renamed => exact ⟨hg.sink, hg.id_eq, hg.fits⟩
  | modified _ hid hdefinition hfits => exact hg.modifyModule hid hdefinition hfits

lemma wellFormed_applyAll {c : Catalog} (hc : c.Reachable) {g₀ : Graph}
    (hnew : Graph.new c = .ok g₀) (edits : List Edit) :
    (g₀.applyAll edits).WellFormed ∧ (g₀.applyAll edits).catalog = c := by
  refine applyAll_induction (P := fun g => g.WellFormed ∧ g.catalog = c) ?_ ?_ edits
  · rintro g e h ⟨hg, rfl⟩ he
    exact ⟨hg.apply hc.flaw?_eq_none he, catalog_apply he⟩
  · obtain ⟨d, -, hg₀⟩ := new_eq_ok_iff.mp hnew
    exact ⟨.of_new hc hnew, by rw [hg₀]⟩

/-- **Every graph that can come about is in order.** -/
theorem Reachable.wellFormed (hg : g.Reachable) : g.WellFormed := by
  obtain ⟨c, g₀, edits, hc, hnew, rfl⟩ := hg
  exact (wellFormed_applyAll hc hnew edits).1

/-! ## The modules as a list -/

lemma mem_modules_iff (hg : g.WellFormed) {m : Module} :
    m ∈ g.modules ↔ g.get? m.id = some m := by
  rw [modules, List.reduceOption_mem_iff, List.mem_iff_getElem?]
  constructor
  · rintro ⟨k, hk⟩
    have hm : g.get? ⟨k⟩ = some m := get?_eq_some_iff.mpr (by simpa using hk)
    rw [hg.id_eq _ _ hm]
    exact hm
  · intro hm
    exact ⟨m.id.index, by simpa using get?_eq_some_iff.mp hm⟩

/-- The modules are listed in ascending order of their handles. -/
lemma WellFormed.modules_sorted (hg : g.WellFormed) :
    (g.modules.map (·.id.index)).Pairwise (· < ·) := by
  rw [modules, List.reduceOption, List.pairwise_map, List.pairwise_filterMap,
    List.pairwise_iff_getElem]
  intro i j hi hj hij m hm m' hm'
  have hmodule : ∀ k m, (hk : k < g.arena.toList.length) → id g.arena.toList[k] = some m →
      m.id = ⟨k⟩ := by
    intro k m hk hkm
    refine hg.id_eq _ _ (get?_eq_some_iff.mpr (Array.getElem?_eq_some_iff.mpr ⟨hk, ?_⟩))
    simpa using hkm
  rw [hmodule i m hi hm, hmodule j m' hj hm']
  exact hij

/-- No two modules have one handle. -/
lemma WellFormed.modules_nodup (hg : g.WellFormed) : (g.modules.map (·.id)).Nodup := by
  refine List.Nodup.of_map ModuleId.index ?_
  rw [List.map_map]
  exact hg.modules_sorted.imp Nat.ne_of_lt

/-! ## What follows for the slots -/

lemma WellFormed.sink_outChannels (hg : g.WellFormed) {m : Module} (hm : g.get? .sink = some m) :
    m.outChannels = 0 := by
  obtain ⟨s, hs, hname⟩ := hg.sink
  cases hs.symm.trans hm
  exact (Definition.flaw?_eq_none_iff.mp (hg.fits _ _ hm).flawless).2.2.2 hname

/-- Whatever a slot is bound to is a module with an output. -/
lemma WellFormed.exists_of_mem_producers (hg : g.WellFormed) {id p : ModuleId} {m : Module}
    (hm : g.get? id = some m) (hp : p ∈ m.producers) :
    ∃ q, g.get? p = some q ∧ q.outChannels ≠ 0 := by
  rw [Module.producers, List.mem_append, Option.mem_toList, List.mem_filterMap] at hp
  rcases hp with hp | ⟨param, hparam, hp⟩
  · obtain ⟨hin, hout⟩ := (hg.fits id m hm).mainInput p hp
    obtain ⟨q, hq, hcount⟩ := outputs_eq_some_iff.mp hout
    exact ⟨q, hq, by rw [hcount]; exact hin⟩
  · obtain ⟨q, hq, hcount⟩ := outputs_eq_some_iff.mp ((hg.fits id m hm).binding param hparam p hp)
    exact ⟨q, hq, by rw [hcount]; decide⟩

/-- No slot is bound to the sink. -/
lemma WellFormed.sink_not_mem_producers (hg : g.WellFormed) {id : ModuleId} {m : Module}
    (hm : g.get? id = some m) : ModuleId.sink ∉ m.producers := by
  intro hp
  obtain ⟨q, hq, hout⟩ := hg.exists_of_mem_producers hm hp
  exact hout (hg.sink_outChannels hq)

/-! ## Handles -/

/-- A run takes at most one new place for each module it adds. -/
lemma size_applyAll_le (g : Graph) (edits : List Edit) :
    (g.applyAll edits).arena.size ≤ g.arena.size + edits.countP Edit.isAdd := by
  induction edits generalizing g with
  | nil => exact Nat.le_refl _
  | cons e edits ih =>
      have hrest := ih (g.next e)
      rw [List.countP_cons]
      change ((g.next e).applyAll edits).arena.size ≤ _
      cases he : g.apply e with
      | error _ =>
          rw [next_of_error he] at hrest ⊢
          omega
      | ok h =>
          rw [next_of_ok he] at hrest ⊢
          have := size_apply he
          omega

/-! ## The invariant of every run -/

/-- **No run of edits leaves a loose end.**  Whatever catalog is registered, and whatever edits are
applied to a graph opened on it, succeeding or refused: the sink is there and gives nothing; every
module lies at the place of its handle; it instantiates a flawless definition of the catalog, with
the parameters of that definition; and every bound slot is bound to a module that gives as many
channels as the slot takes, so never to the sink.  A handle is never larger than the number of
modules added. -/
theorem representation_invariant {start : Catalog} (hstart : start = .empty ∨ start = .withSink)
    (fillings : List Catalog.Filling) {g₀ : Graph}
    (hnew : Graph.new (start.fillAll fillings) = .ok g₀) (edits : List Edit) {g : Graph}
    (hg : g = g₀.applyAll edits) :
    (∃ m, g.get? .sink = some m ∧ m.definition.name = "!out" ∧ m.outChannels = 0) ∧
    (∀ k m, g.arena[k]? = some (some m) → m.id = ⟨k⟩ ∧ k ≤ edits.countP Edit.isAdd) ∧
    (∀ id m, g.get? id = some m →
      (start.fillAll fillings).get? m.definition.name = some m.definition ∧
      m.definition.flaw? = none ∧ m.params.map (·.name) = m.definition.paramNames ∧
      (m.params.map (·.name)).Nodup) ∧
    (∀ id m p, g.get? id = some m → m.mainInput = some p →
      m.inChannels ≠ 0 ∧ ∃ q, g.get? p = some q ∧ m.inChannels = q.outChannels) ∧
    (∀ id m p, ∀ param ∈ m.params, g.get? id = some m → param.binding = some p →
      ∃ q, g.get? p = some q ∧ q.outChannels = 1) ∧
    (∀ id m, g.get? id = some m →
      m.mainInput ≠ some .sink ∧ ∀ param ∈ m.params, param.binding ≠ some .sink) := by
  have hc : Catalog.Reachable (start.fillAll fillings) := ⟨start, fillings, hstart, rfl⟩
  obtain ⟨hwf, hcatalog⟩ := wellFormed_applyAll hc hnew edits
  rw [← hg] at hwf hcatalog
  refine ⟨?_, ?_, ?_, ?_, ?_, ?_⟩
  · obtain ⟨m, hm, hname⟩ := hwf.sink
    exact ⟨m, hm, hname, hwf.sink_outChannels hm⟩
  · intro k m hm
    refine ⟨hwf.id_eq ⟨k⟩ m (get?_eq_some_iff.mpr hm), ?_⟩
    obtain ⟨d, -, hg₀⟩ := new_eq_ok_iff.mp hnew
    have hone : g₀.arena.size = 1 := by rw [hg₀]; rfl
    have hsize := size_applyAll_le g₀ edits
    have hk : k < g.arena.size := (Array.getElem?_eq_some_iff.mp hm).1
    rw [← hg] at hsize
    omega
  · intro id m hm
    have hfits := hwf.fits id m hm
    have hnodup := (Definition.flaw?_eq_none_iff.mp hfits.flawless).2.2.1
    rw [← hcatalog]
    exact ⟨hfits.definition, hfits.flawless, hfits.names, by rw [hfits.names]; exact hnodup⟩
  · intro id m p hm hp
    obtain ⟨hin, hout⟩ := (hwf.fits id m hm).mainInput p hp
    obtain ⟨q, hq, hcount⟩ := outputs_eq_some_iff.mp hout
    exact ⟨hin, q, hq, hcount.symm⟩
  · intro id m p param hparam hm hp
    exact outputs_eq_some_iff.mp ((hwf.fits id m hm).binding param hparam p hp)
  · intro id m hm
    have hnot := hwf.sink_not_mem_producers hm
    simp only [Module.producers, List.mem_append, Option.mem_toList, List.mem_filterMap, not_or,
      not_exists, not_and] at hnot
    exact hnot

/-- The invariant at a patch in which edits were refused and a module was taken back. -/
theorem representation_invariant_demo :
    Graph.new (Catalog.withSink.fillAll demoFillings) = .ok demoStart ∧
    demo = demoStart.applyAll demoEdits ∧
    (∃ m, demo.get? .sink = some m ∧ m.definition.name = "!out" ∧ m.outChannels = 0) ∧
    (∀ id m, demo.get? id = some m →
      m.mainInput ≠ some .sink ∧ ∀ param ∈ m.params, param.binding ≠ some .sink) := by
  have h := representation_invariant (Or.inr rfl) demoFillings new_demo demoEdits rfl
  exact ⟨new_demo, rfl, h.1, h.2.2.2.2.2⟩

end Graph

end Patchbay
