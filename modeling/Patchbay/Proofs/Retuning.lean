import Patchbay.Proofs.DeadModules
import Patchbay.Proofs.InitialValues
import Patchbay.Proofs.Rewiring

/-!
# Names and values

A graph can be renamed and retuned while its patch is in use.  The order of the modules, the layout
and the statements follow from the definitions and the slots alone, so they stay as they are; of the
initial values only the text of the parameter that was set can change.

* `Module.Cosmetic` — a change of modules that keeps their handles, definitions and slots.
* `Module.Cosmetic.ofModules_map` — **everything but the initial values** is the same for the
  changed modules, stage by stage.
* `Graph.visitSlots_of_cosmetic` — the visits of a changed graph take the same turns, as long as
  they succeed: an error would name a module, and names may have changed.
* `Graph.scheduled_of_cosmetic` — so the changed graph runs the changed modules.
* `Turn.entries_setValue` — setting a value changes one text of one range, and none if a producer
  drives the parameter.
* `Graph.retuning_exact` — **what renaming and retuning do to a patch.**
-/

namespace Patchbay

/-! ## Changes that keep the structure -/

/-- **A cosmetic change** of modules: it may give them other names and other values, and keeps their
handles, their definitions and what their slots are bound to. -/
structure Module.Cosmetic (change : Module → Module) : Prop where
  id : ∀ m, (change m).id = m.id
  definition : ∀ m, (change m).definition = m.definition
  slots : ∀ m, (change m).slots = m.slots

namespace Module.Cosmetic

variable {change : Module → Module} (hc : Cosmetic change)
include hc

lemma mainInput (m : Module) : (change m).mainInput = m.mainInput :=
  (List.cons.inj (hc.slots m)).1

lemma bindings (m : Module) : (change m).params.map (·.binding) = m.params.map (·.binding) :=
  (List.cons.inj (hc.slots m)).2

lemma producers_eq (m : Module) : (change m).producers = m.producers := by
  rw [← reduceOption_slots, ← reduceOption_slots, hc.slots]

lemma inChannels_eq (m : Module) : (change m).inChannels = m.inChannels := by
  rw [inChannels, inChannels, hc.definition]

lemma isStarved_eq (m : Module) : (change m).isStarved = m.isStarved := by
  rw [isStarved, isStarved, hc.inChannels_eq, hc.mainInput]

/-! ### The layout -/

lemma readBack_map (modules : List Module) :
    ∀ previous, readBack previous (modules.map change) = readBack previous modules := by
  induction modules with
  | nil => simp [readBack]
  | cons m modules ih =>
      intro previous
      simp [readBack, hc.producers_eq, hc.id, ih]

lemma placeFrom_map (kept : List ModuleId) (modules : List Module) :
    ∀ start, Layout.placeFrom kept start (modules.map change) =
      Layout.placeFrom kept start modules := by
  induction modules with
  | nil => simp [Layout.placeFrom]
  | cons m modules ih =>
      intro start
      simp [Layout.placeFrom, Node.ofModule, hc.id, hc.definition, ih]

lemma layout_map (modules : List Module) :
    Layout.ofModules (modules.map change) = Layout.ofModules modules := by
  rw [Layout.ofModules, Layout.ofModules, hc.readBack_map, hc.placeFrom_map]

lemma schedule_map (modules : List Module) :
    Schedule.ofModules (modules.map change) = Schedule.ofModules modules := by
  simp [Schedule.ofModules, hc.id]

/-- Every changed module has the range of the module it was. -/
lemma placements_map (modules : List Module) :
    placements (modules.map change) = (placements modules).map fun x => (change x.1, x.2) := by
  rw [placements, placements, hc.layout_map, List.zip_map_left]
  rfl

/-! ### The statements -/

/-- The driven cells of a module are read off its bindings. -/
lemma drivenCells_eq (m : Module) (n : Node) : drivenCells (change m) n = drivenCells m n := by
  have hcells : ((change m).params.mapIdx fun index p => p.binding.map (·, n.paramCell index)) =
      m.params.mapIdx fun index p => p.binding.map (·, n.paramCell index) := by
    apply List.ext_getElem?
    intro k
    have hbinding : ((change m).params.map (·.binding))[k]? = (m.params.map (·.binding))[k]? := by
      rw [hc.bindings]
    simp only [List.getElem?_map, List.getElem?_mapIdx] at hbinding ⊢
    cases hk : (change m).params[k]? <;> cases hk' : m.params[k]? <;> simp_all
  rw [drivenCells, drivenCells, hcells, hc.id]

lemma moduleStatements_eq (layout : Layout) (driven : List (ModuleId × Nat))
    (previous : Option ModuleId) (m : Module) (n : Node) :
    moduleStatements layout driven previous (change m) n =
      moduleStatements layout driven previous m n := by
  rw [moduleStatements, moduleStatements, inputStatements, inputStatements, fanOutStatements,
    fanOutStatements, hc.mainInput, hc.inChannels_eq, hc.id, hc.definition]

lemma statementsFrom_map (layout : Layout) (driven : List (ModuleId × Nat))
    (placed : List (Module × Node)) :
    ∀ previous, statementsFrom layout driven previous (placed.map fun x => (change x.1, x.2)) =
      statementsFrom layout driven previous placed := by
  induction placed with
  | nil => simp [statementsFrom]
  | cons x placed ih =>
      intro previous
      simp [statementsFrom, hc.moduleStatements_eq, hc.id, ih]

lemma program_map (modules : List Module) :
    program (modules.map change) (.ofModules modules) = program modules (.ofModules modules) := by
  have hplaced : (modules.map change).zip (Layout.ofModules modules).nodes =
      (placements modules).map fun x => (change x.1, x.2) := by
    rw [← hc.placements_map, placements, hc.layout_map]
  have hdriven : allDrivenCells ((placements modules).map fun x => (change x.1, x.2)) =
      allDrivenCells (placements modules) := by
    simp [allDrivenCells, List.flatMap_map, hc.drivenCells_eq]
  rw [program, program, hplaced, hdriven, hc.statementsFrom_map]
  rfl

/-- **The order, the layout and the code stay as they are.** -/
theorem ofModules_map (modules : List Module) :
    (Patch.ofModules (modules.map change)).schedule = (Patch.ofModules modules).schedule ∧
      (Patch.ofModules (modules.map change)).layout = (Patch.ofModules modules).layout ∧
      (Patch.ofModules (modules.map change)).code = (Patch.ofModules modules).code := by
  refine ⟨hc.schedule_map modules, hc.layout_map modules, ?_⟩
  simp only [Patch.ofModules, hc.layout_map, hc.program_map]

end Module.Cosmetic

/-! ## The order -/

namespace Graph

variable {g h : Graph} {path : Finset ModuleId}

/-- A visit succeeds if the module is there, has the input it takes, and its slots are visited. -/
lemma visit_eq_ok_iff {id : ModuleId} {hid : id ∉ path} {order result : List ModuleId} :
    g.visit path id hid order = .ok result ↔ ∃ m middle, g.get? id = some m ∧
      m.isStarved = false ∧ g.visitSlots (insert id path) m.slots order = .ok middle ∧
      result = middle ++ [id] := by
  cases hm : g.get? id with
  | none => simp [visit_of_missing hid hm]
  | some m =>
      cases hstarved : m.isStarved with
      | true => simp [visit_of_starved hid hm hstarved, hstarved]
      | false =>
          rw [visit_eq hid hm hstarved]
          cases hslots : g.visitSlots (insert id path) m.slots order with
          | error e => simp [Except.map, hslots]
          | ok middle =>
              simp only [Except.map, Except.ok.injEq, Option.some.injEq, exists_and_left,
                exists_eq_left', hstarved, hslots, true_and]
              exact eq_comm

variable {change : Module → Module}

/-- **Visits that succeed** do so in the changed graph as well, and put the same modules in the same
order: by induction on what is not open yet and, within one visit, on the slots that are left. -/
theorem visitSlots_of_cosmetic (hc : Module.Cosmetic change)
    (hget : ∀ id, h.get? id = (g.get? id).map change) (path : Finset ModuleId) :
    ∀ (slots : List (Option ModuleId)) (order result : List ModuleId),
      g.visitSlots path slots order = .ok result → h.visitSlots path slots order = .ok result := by
  induction hn : g.unopened path using Nat.strongRecOn generalizing path with
  | _ n ih =>
      intro slots
      induction slots with
      | nil => simp [visitSlots]
      | cons slot slots ihslots =>
          intro order result hok
          cases slot with
          | none =>
              rw [visitSlots] at hok ⊢
              exact ihslots order result hok
          | some p =>
              by_cases horder : p ∈ order
              · rw [visitSlots_of_mem horder] at hok ⊢
                exact ihslots order result hok
              · by_cases hopen : p ∈ path
                · rw [visitSlots, if_neg horder, dif_pos hopen] at hok
                  split at hok <;> cases hok
                · rw [visitSlots_of_new horder hopen, bind_eq_ok_iff] at hok ⊢
                  obtain ⟨middle, hvisit, hrest⟩ := hok
                  refine ⟨middle, ?_, ihslots middle result hrest⟩
                  obtain ⟨q, inner, hq, hfed, hinner, rfl⟩ := visit_eq_ok_iff.mp hvisit
                  refine visit_eq_ok_iff.mpr ⟨change q, inner, ?_, ?_, ?_, rfl⟩
                  · simp [hget, hq]
                  · rw [hc.isStarved_eq, hfed]
                  · rw [hc.slots]
                    exact ih _ (hn ▸ unopened_insert_lt hq hopen) _ rfl q.slots order inner hinner

/-- An order of modules is made of what its handles stand for. -/
lemma IsSchedule.filterMap_get? {modules : List Module} (hs : g.IsSchedule modules) :
    (modules.map (·.id)).filterMap g.get? = modules := by
  rw [List.filterMap_map]
  exact (List.filterMap_congr hs.member).trans List.filterMap_some

/-- **A graph whose modules have changed cosmetically** has an order if it had one, and the changed
modules stand in it as the modules did. -/
theorem scheduled_of_cosmetic (hg : g.WellFormed) (hh : h.WellFormed) (hc : Module.Cosmetic change)
    (hget : ∀ id, h.get? id = (g.get? id).map change) {modules : List Module}
    (hmodules : g.scheduled = .ok modules) : h.scheduled = .ok (modules.map change) := by
  have hs := (scheduled_spec hg.id_eq).1 modules hmodules
  have horder : g.depthFirst = .ok (modules.map (·.id)) :=
    (map_scheduled_eq_depthFirst hg.id_eq).1 modules hmodules
  have horder' : h.depthFirst = .ok (modules.map (·.id)) := by
    obtain ⟨m, middle, hm, hfed, hslots, hmiddle⟩ := visit_eq_ok_iff.mp horder
    refine visit_eq_ok_iff.mpr ⟨change m, middle, ?_, ?_, ?_, hmiddle⟩
    · simp [hget, hm]
    · rw [hc.isStarved_eq, hfed]
    · rw [hc.slots]
      exact visitSlots_of_cosmetic hc hget _ _ _ _ hslots
  have hwalk := map_scheduled_eq_depthFirst hh.id_eq
  cases hscheduled : h.scheduled with
  | error fault =>
      rw [hwalk.2 fault hscheduled] at horder'
      cases horder'
  | ok modules' =>
      have hids : modules'.map (·.id) = modules.map (·.id) := by
        simpa [hwalk.1 modules' hscheduled] using horder'
      have hs' := (scheduled_spec hh.id_eq).1 modules' hscheduled
      rw [← hs'.filterMap_get?, hids, List.filterMap_map, ← List.filterMap_eq_map]
      refine congrArg Except.ok (List.filterMap_congr fun m hm => ?_)
      simp [hget, hs.member m hm]

end Graph

/-! ## One module -/

namespace Module

/-- The change of the module under a handle, which leaves all others alone. -/
def only (id : ModuleId) (change : Module → Module) (m : Module) : Module :=
  if m.id = id then change m else m

lemma cosmetic_setName (name : String) : Cosmetic (·.setName name) :=
  ⟨fun _ => rfl, fun _ => rfl, fun _ => rfl⟩

lemma cosmetic_setValue (index : Nat) (value : Binary32) : Cosmetic (·.setValue index value) := by
  refine ⟨fun _ => rfl, fun _ => rfl, fun m => ?_⟩
  have hbindings : (m.setValue index value).params.map (·.binding) = m.params.map (·.binding) := by
    apply List.ext_getElem?
    intro k
    simp only [setValue, List.getElem?_map, List.getElem?_modify]
    cases m.params[k]? with
    | none => rfl
    | some q =>
        simp only [Option.map_some, Option.map_eq_map]
        split_ifs <;> rfl
  rw [slots, slots, hbindings]
  rfl

lemma Cosmetic.only {change : Module → Module} (hc : Cosmetic change) (id : ModuleId) :
    Cosmetic (Module.only id change) := by
  refine ⟨fun m => ?_, fun m => ?_, fun m => ?_⟩ <;> rw [Module.only] <;> split_ifs
  · exact hc.id m
  · rfl
  · exact hc.definition m
  · rfl
  · exact hc.slots m
  · rfl

/-- Where nobody has the handle, nobody changes. -/
lemma map_only_of_not_mem {id : ModuleId} {modules : List Module} (change : Module → Module)
    (h : id ∉ modules.map (·.id)) : modules.map (only id change) = modules := by
  refine (List.map_congr_left fun m hm => ?_).trans (List.map_id _)
  refine if_neg ?_
  rintro rfl
  exact h (List.mem_map_of_mem hm)

end Module

lemma Graph.get?_modifyModule_only {g : Graph} (hg : g.WellFormed) (id other : ModuleId)
    (change : Module → Module) :
    (g.modifyModule id change).get? other = (g.get? other).map (Module.only id change) := by
  rw [get?_modifyModule]
  cases hm : g.get? other with
  | none => simp
  | some m =>
      simp only [Module.only, hg.id_eq other m hm, Option.map_some, eq_comm (a := id)]
      split_ifs <;> rfl

/-! ## The initial values -/

section

variable (s : Schedule) (place : Nat) (n : Node) {m : Module} {j : Nat} {q : Param}
  (value : Binary32)

/-- A module with one value set writes that value, if nothing drives the parameter. -/
lemma moduleEntries_setValue_of_free (hq : m.params[j]? = some q) (hfree : q.binding = none) :
    moduleEntries s place (m.setValue j value) n =
      (moduleEntries s place m n).set j value.literal := by
  have hj : j < (m.params.map (paramEntry s place)).length := by
    simpa using (List.getElem?_eq_some_iff.mp hq).1
  have hentry : paramEntry s place { q with value := value } = value.literal := by
    simp [paramEntry, hfree]
  rw [moduleEntries, moduleEntries, List.set_append_left _ _ hj, Module.setValue,
    List.modify_eq_set_getElem?, hq]
  simp [List.map_set, hentry]

/-- A driven parameter is written as zero whatever its value is. -/
lemma moduleEntries_setValue_of_bound (hq : m.params[j]? = some q) (hbound : q.binding ≠ none) :
    moduleEntries s place (m.setValue j value) n = moduleEntries s place m n := by
  have hentry : paramEntry s place { q with value := value } = paramEntry s place q := by
    rw [paramEntry, paramEntry]
    cases hbinding : q.binding with
    | none => exact absurd hbinding hbound
    | some producer => rfl
  have hparams : (m.setValue j value).params.map (paramEntry s place) =
      m.params.map (paramEntry s place) := by
    rw [Module.setValue, List.modify_eq_set_getElem?, hq]
    obtain ⟨hj, rfl⟩ := List.getElem?_eq_some_iff.mp hq
    rw [← List.length_map (paramEntry s place)] at hj
    simpa [List.map_set, hentry] using List.set_getElem_self hj
  rw [moduleEntries, moduleEntries, hparams]

end

/-- Texts are made of the parameters alone. -/
lemma entries_map_of_params {change : Module → Module} (h : ∀ m, (change m).params = m.params)
    (modules : List Module) (s : Schedule) (layout : Layout) :
    entries (modules.map change) s layout = entries modules s layout := by
  rw [entries, entries, List.zip_map_left]
  congr 1
  apply List.ext_getElem?
  intro k
  simp only [List.getElem?_mapIdx, List.getElem?_map, Option.map_map]
  congr 1
  funext x
  simp [moduleEntries, h]

namespace Turn

variable {g : Graph} {modules : List Module} {done rest : List (Module × Node)} {m : Module}
  {n : Node} {change : Module → Module}

/-- The texts of all cells when the module that takes its turn is changed: those of the ranges
before its own, of its own, and of the ranges behind it. -/
lemma entries_map_only (h : Turn g modules done m n rest) (hc : Module.Cosmetic change)
    (s : Schedule) :
    entries (modules.map (Module.only m.id change)) s (.ofModules modules) =
      entriesFrom s 0 done ++ (moduleEntries s done.length (change m) n ++
        entriesFrom s (done.length + 1) rest) := by
  have hothers : ∀ placed : List (Module × Node), (∀ x ∈ placed, x.1.id ≠ m.id) →
      (placed.map fun x => (Module.only m.id change x.1, x.2)) = placed := by
    intro placed hne
    refine (List.map_congr_left fun x hx => ?_).trans (List.map_id _)
    rw [Module.only, if_neg (hne x hx)]
    rfl
  have hplaced : placements (modules.map (Module.only m.id change)) =
      done ++ (change m, n) :: rest := by
    rw [(hc.only m.id).placements_map, h.split, List.map_append, List.map_cons,
      hothers done fun x hx => h.id_ne_of_done hx, hothers rest fun x hx => h.id_ne_of_rest hx,
      Module.only, if_pos rfl]
  have hentries := entries_eq (modules.map (Module.only m.id change)) s
  rw [(hc.only m.id).layout_map] at hentries
  rw [hentries, hplaced]
  simp [entriesFrom, List.zipIdx_append]

/-- **Setting a value changes one text**, that of the cell of the parameter, unless the parameter is
driven. -/
theorem entries_setValue (h : Turn g modules done m n rest) {j : Nat} {q : Param}
    (hq : m.params[j]? = some q) (s : Schedule) (value : Binary32) :
    (q.binding = none →
      entries (modules.map (Module.only m.id (·.setValue j value))) s (.ofModules modules) =
        (entries modules s (.ofModules modules)).set (n.paramCell j) value.literal) ∧
    (q.binding ≠ none →
      entries (modules.map (Module.only m.id (·.setValue j value))) s (.ofModules modules) =
        entries modules s (.ofModules modules)) := by
  have hbefore : entries modules s (.ofModules modules) =
      entriesFrom s 0 done ++ (moduleEntries s done.length m n ++
        entriesFrom s (done.length + 1) rest) := by
    rw [entries_eq, h.split]
    simp [entriesFrom, List.zipIdx_append]
  have hj : j < (moduleEntries s done.length m n).length := by
    have := (List.getElem?_eq_some_iff.mp hq).1
    simp only [moduleEntries, List.length_append, List.length_map]
    omega
  rw [h.entries_map_only (Module.cosmetic_setValue j value), hbefore]
  constructor
  · intro hfree
    rw [moduleEntries_setValue_of_free _ _ _ _ hq hfree, Node.paramCell,
      ← h.length_entriesFrom_done s, List.set_append_right _ _ (by omega),
      Nat.add_sub_cancel_left, List.set_append_left _ _ hj]
  · intro hbound
    rw [moduleEntries_setValue_of_bound _ _ _ _ hq hbound]

end Turn

namespace Graph

variable {g : Graph} {modules : List Module} {id : ModuleId} {m : Module}

/-- The modules in their order when one of them is changed cosmetically. -/
lemma scheduled_modifyModule (hg : g.WellFormed) (hmodules : g.scheduled = .ok modules)
    {change : Module → Module} (hc : Module.Cosmetic change)
    (hh : (g.modifyModule id change).WellFormed) :
    (g.modifyModule id change).scheduled = .ok (modules.map (Module.only id change)) :=
  scheduled_of_cosmetic hg hh (hc.only id) (fun other => get?_modifyModule_only hg id other change)
    hmodules

/-- Renaming a module leaves the patch as it is. -/
lemma compile_rename (hg : g.Reachable) (hmodules : g.scheduled = .ok modules)
    (hm : g.get? id = some m) (name : String) :
    ∃ h, g.rename id name = .ok h ∧ h.compile = .ok (.ofModules modules) := by
  have hrename : g.rename id name = .ok (g.modifyModule id (·.setName name)) :=
    rename_eq_ok_iff.mpr ⟨⟨m, hm⟩, rfl⟩
  have hwf' := (hg.apply (e := .rename id name) hrename).wellFormed
  have hc := Module.cosmetic_setName name
  have hmodules' := scheduled_modifyModule hg.wellFormed hmodules hc hwf'
  have hparams : ∀ m, (Module.only id (·.setName name) m).params = m.params := by
    intro m
    rw [Module.only]
    split_ifs <;> rfl
  refine ⟨_, hrename, compile_eq_ok_iff.mpr ⟨_, hmodules', ?_⟩⟩
  simp only [Patch.ofModules, (hc.only id).schedule_map, (hc.only id).layout_map,
    (hc.only id).program_map, entries_map_of_params hparams]

/-- The texts of all cells when a value is set: one of them changes if the module runs and nothing
drives the parameter, and none otherwise. -/
lemma IsSchedule.entries_setValue (hs : g.IsSchedule modules) (hg : g.WellFormed)
    (hm : g.get? id = some m) {k : Nat} {q : Param} (hq : m.params[k]? = some q)
    (value : Binary32) {texts texts' : List String}
    (htexts : texts = entries modules (.ofModules modules) (.ofModules modules))
    (htexts' : texts' = entries (modules.map (Module.only id (·.setValue k value)))
      (.ofModules modules) (.ofModules modules)) :
    (id ∈ modules.map (·.id) → q.binding = none →
      ∃ n, (Layout.ofModules modules).get? id = some n ∧ n.paramCell k < texts.length ∧
        texts' = texts.set (n.paramCell k) value.literal) ∧
    (id ∉ modules.map (·.id) ∨ q.binding ≠ none → texts' = texts) := by
  by_cases hid : id ∈ modules.map (·.id)
  · obtain ⟨j, hj⟩ := List.mem_iff_getElem?.mp hid
    obtain ⟨done, m', n, rest, turn, -, rfl, -⟩ := hs.exists_turn hg hj
    cases hm.symm.trans (turn.member turn.placed)
    have hcell := turn.getElem?_entries_param hq
    obtain ⟨hfree, hbound⟩ := turn.entries_setValue hq (.ofModules modules) value
    rw [← htexts, ← htexts'] at hfree hbound
    rw [← htexts] at hcell
    constructor
    · intro _ hnone
      exact ⟨n, get?_ofModules hs.nodup turn.placed, (List.getElem?_eq_some_iff.mp hcell).1,
        hfree hnone⟩
    · rintro (hnot | hsome)
      · exact absurd hid hnot
      · exact hbound hsome
  · refine ⟨fun hin => absurd hin hid, fun _ => ?_⟩
    rw [htexts', htexts, Module.map_only_of_not_mem _ hid]

/-- **What renaming and retuning do to a patch.**  In a graph that compiles:

* Renaming a module or the graph leaves the patch as it is.
* Setting a value leaves the order, the layout and the code as they are.  If the module runs and
  nothing drives the parameter, the text at the cell of the parameter becomes the literal of the
  value and the texts at all other cells stay; otherwise all texts stay. -/
theorem retuning_exact (hg : g.Reachable) {patch : Patch} (hpatch : g.compile = .ok patch) :
    (∀ id m name, g.get? id = some m → ∃ h, g.rename id name = .ok h ∧ h.compile = .ok patch) ∧
    (∀ name, (g.setName name).compile = .ok patch) ∧
    ∀ id m param k value, g.get? id = some m → m.paramIndex? param = some k →
      ∃ q h patch' texts texts', m.params[k]? = some q ∧
        g.setParam id param value = .ok h ∧ h.compile = .ok patch' ∧
        patch'.schedule = patch.schedule ∧ patch'.layout = patch.layout ∧
        patch'.code = patch.code ∧ g.StartsWith patch texts ∧ h.StartsWith patch' texts' ∧
        (id ∈ patch.schedule.order → q.binding = none →
          ∃ n, patch.layout.get? id = some n ∧ n.paramCell k < texts.length ∧
            texts' = texts.set (n.paramCell k) value.literal) ∧
        (id ∉ patch.schedule.order ∨ q.binding ≠ none →
          texts' = texts ∧ patch'.values = patch.values) := by
  have hwf := hg.wellFormed
  obtain ⟨modules, hmodules, rfl⟩ := compile_eq_ok_iff.mp hpatch
  have hs := (scheduled_spec hwf.id_eq).1 modules hmodules
  refine ⟨fun id m name hm => compile_rename hg hmodules hm name, ?_, ?_⟩
  · intro name
    rw [← hpatch]
    exact compile_congr hwf (hg.apply (e := .setName name) rfl).wellFormed fun _ _ => rfl
  · intro id m param k value hm hk
    obtain ⟨q, hq, -⟩ := Module.param?_of_paramIndex? hk
    have hset : g.setParam id param value = .ok (g.modifyModule id (·.setValue k value)) :=
      setParam_eq_ok_iff.mpr ⟨k, ⟨m, hm, hk⟩, rfl⟩
    have hwf' := (hg.apply (e := .setParam id param value) hset).wellFormed
    have hc := Module.cosmetic_setValue k value
    have hmodules' := scheduled_modifyModule hwf hmodules hc hwf'
    obtain ⟨hschedule, hlayout, hcode⟩ := (hc.only id).ofModules_map modules
    have hstart := hs.startsWith_entries hwf
    have hstart' := ((scheduled_spec hwf'.id_eq).1 _ hmodules').startsWith_entries hwf'
    rw [(hc.only id).schedule_map, (hc.only id).layout_map] at hstart'
    obtain ⟨hchanged, hsame⟩ := hs.entries_setValue hwf hm hq value rfl rfl
    refine ⟨q, _, _, _, _, hq, hset, compile_eq_ok_iff.mpr ⟨_, hmodules', rfl⟩, hschedule, hlayout,
      hcode, hstart, hstart', hchanged, fun hstays => ⟨hsame hstays, ?_⟩⟩
    rw [hstart'.values, hsame hstays, hstart.values]

/-- In the demo patch the second oscillator is renamed, the pan is set to minus a quarter, and so is
the gain, which the oscillator drives. -/
theorem retuning_exact_demo :
    ∃ patch, demo.compile = .ok patch ∧
      (∃ h, demo.rename ⟨3⟩ "Vibrato" = .ok h ∧ h.compile = .ok patch) ∧
      (∃ h patch' texts, demo.setParam ⟨2⟩ "pos" ⟨0xBE800000⟩ = .ok h ∧ h.compile = .ok patch' ∧
        patch'.code = patch.code ∧ h.StartsWith patch' texts ∧ texts[2]? = some "-0.25") ∧
      ∃ h patch', demo.setParam ⟨4⟩ "gain" ⟨0xBE800000⟩ = .ok h ∧ h.compile = .ok patch' ∧
        patch'.values = patch.values := by
  obtain ⟨patch, hpatch, horder, hnodes⟩ := exists_demo_layout
  have hosc : demo.get? ⟨3⟩ = some (.instantiate ⟨3⟩ demoSawtooth) := by decide +kernel
  have hpan : demo.get? ⟨2⟩ = some
      ((Module.instantiate ⟨2⟩ demoPan).setMainInput (some ⟨1⟩)) := by decide +kernel
  have hmul : demo.get? ⟨4⟩ = some (((Module.instantiate ⟨4⟩ demoMul).setMainInput
      (some ⟨2⟩)).setBinding 0 (some ⟨3⟩)) := by decide +kernel
  have hliteral : (⟨0xBE800000⟩ : Binary32).literal = "-0.25" := by decide +kernel
  obtain ⟨hrename, -, hset⟩ := retuning_exact demo_reachable hpatch
  refine ⟨patch, hpatch, hrename ⟨3⟩ _ "Vibrato" hosc, ?_, ?_⟩
  · obtain ⟨q, h, patch', texts, texts', hq, hok, hcompile, -, -, hcode, -, hstart, hchanged, -⟩ :=
      hset ⟨2⟩ _ "pos" 0 ⟨0xBE800000⟩ hpan rfl
    cases hq
    obtain ⟨n, hn, hlt, rfl⟩ := hchanged (by simp [horder]) rfl
    have hcell : n.paramCell 0 = 2 := by
      rw [Layout.get?, hnodes] at hn
      cases hn
      rfl
    refine ⟨h, patch', _, hok, hcompile, hcode, hstart, ?_⟩
    rw [← hcell, List.getElem?_set_self hlt, hliteral]
  · obtain ⟨q, h, patch', _, _, hq, hok, hcompile, -, -, -, -, -, -, hstays⟩ :=
      hset ⟨4⟩ _ "gain" 0 ⟨0xBE800000⟩ hmul rfl
    cases hq
    exact ⟨h, patch', hok, hcompile, (hstays (Or.inr (by simp))).2⟩

end Graph

end Patchbay
