import Patchbay.Patch
import Mathlib.Data.List.Basic
import Mathlib.Data.List.ReduceOption
import Mathlib.Data.Set.Function

/-!
# Patches under new handles

A handle only says which module is meant.  This file gives every module of an order a new handle and
follows the change through everything that is made of the order: the outputs that are kept, the
layout, the statements and the initial values.  Each of these transports along an injective map of
the handles, and the texts, which name no handle, stay as they are.

* `Module.relabel`, `Node.relabel`, `Statement.relabel` — the same under new handles, and
  `Patch.relabel`, which leaves the two texts alone.
* `readBack_relabel`, `Layout.ofModules_relabel` — the layout transports.
* `program_relabel`, `entries_relabel` — the statements transport, and the initial values stay.
* `Patch.ofModules_relabel` — **the patch of relabelled modules is the relabelled patch.**
-/

namespace Patchbay

/-! ## New handles -/

def Param.relabel (ρ : ModuleId → ModuleId) (p : Param) : Param :=
  { p with binding := p.binding.map ρ }

/-- The module under its new handle, bound to its producers under theirs. -/
def Module.relabel (ρ : ModuleId → ModuleId) (m : Module) : Module :=
  { m with
    id := ρ m.id
    mainInput := m.mainInput.map ρ
    params := m.params.map (Param.relabel ρ) }

def Schedule.relabel (ρ : ModuleId → ModuleId) (s : Schedule) : Schedule := ⟨s.order.map ρ⟩

def Node.relabel (ρ : ModuleId → ModuleId) (n : Node) : Node := { n with owner := ρ n.owner }

def Layout.relabel (ρ : ModuleId → ModuleId) (l : Layout) : Layout := ⟨l.nodes.map (Node.relabel ρ)⟩

def Statement.relabel (ρ : ModuleId → ModuleId) : Statement → Statement
  | .fragment owner definition => .fragment (ρ owner) definition
  | x => x

/-- The patch with new handles in its schedule and its layout, and with the same texts. -/
def Patch.relabel (ρ : ModuleId → ModuleId) (p : Patch) : Patch :=
  { p with schedule := p.schedule.relabel ρ, layout := p.layout.relabel ρ }

section

variable (ρ : ModuleId → ModuleId)

@[simp] lemma Module.relabel_id (m : Module) : (m.relabel ρ).id = ρ m.id := rfl

@[simp] lemma Module.relabel_mainInput (m : Module) :
    (m.relabel ρ).mainInput = m.mainInput.map ρ := rfl

@[simp] lemma Module.relabel_params (m : Module) :
    (m.relabel ρ).params = m.params.map (Param.relabel ρ) := rfl

@[simp] lemma Module.producers_relabel (m : Module) :
    (m.relabel ρ).producers = m.producers.map ρ := by
  simp only [producers, relabel_mainInput, relabel_params, List.map_append, List.filterMap_map,
    List.map_filterMap]
  congr 1
  cases m.mainInput <;> rfl

@[simp] lemma Module.isStarved_relabel (m : Module) : (m.relabel ρ).isStarved = m.isStarved := by
  rw [isStarved, isStarved, relabel_mainInput, Option.isNone_map]
  rfl

@[simp] lemma Statement.render_relabel (x : Statement) : (x.relabel ρ).render = x.render := by
  cases x <;> rfl

lemma Node.ofModule_relabel (m : Module) (start : Nat) (buffered : Bool) :
    Node.ofModule (m.relabel ρ) start buffered = (Node.ofModule m start buffered).relabel ρ := rfl

lemma map_id_relabel (modules : List Module) :
    (modules.map (Module.relabel ρ)).map (·.id) = (modules.map (·.id)).map ρ := by
  simp only [List.map_map]
  rfl

lemma zip_relabel (modules : List Module) (layout : Layout) :
    (modules.map (Module.relabel ρ)).zip (layout.relabel ρ).nodes =
      (modules.zip layout.nodes).map (Prod.map (Module.relabel ρ) (Node.relabel ρ)) := List.zip_map

end

section

variable {ρ : ModuleId → ModuleId} (hρ : Function.Injective ρ)
include hρ

/-! ## The layout -/

lemma readBack_relabel (modules : List Module) :
    ∀ previous : Option ModuleId,
      readBack (previous.map ρ) (modules.map (Module.relabel ρ)) =
        (readBack previous modules).map ρ := by
  induction modules with
  | nil =>
      intro previous
      rfl
  | cons m modules ih =>
      intro previous
      have hrest := ih (some m.id)
      simp only [List.map_cons, readBack, Module.producers_relabel, List.filter_map,
        List.map_append, Module.relabel_id]
      congr 1
      · congr 1
        apply List.filter_congr
        intro p _
        cases previous with
        | none => simp
        | some q => simp [hρ.eq_iff]

lemma Layout.placeFrom_relabel (kept : List ModuleId) (modules : List Module) :
    ∀ start : Nat,
      placeFrom (kept.map ρ) start (modules.map (Module.relabel ρ)) =
        (placeFrom kept start modules).map (Node.relabel ρ) := by
  induction modules with
  | nil =>
      intro start
      rfl
  | cons m modules ih =>
      intro start
      have hkept : (kept.map ρ).contains (ρ m.id) = kept.contains m.id := by
        simp [List.contains_eq_mem, List.mem_map_of_injective hρ]
      simp only [List.map_cons, placeFrom, Module.relabel_id, hkept, Node.ofModule_relabel, ← ih]
      rfl

lemma Layout.ofModules_relabel (modules : List Module) :
    Layout.ofModules (modules.map (Module.relabel ρ)) = (Layout.ofModules modules).relabel ρ := by
  have hkept := readBack_relabel hρ modules none
  rw [Option.map_none] at hkept
  rw [Layout.ofModules, hkept, placeFrom_relabel hρ]
  rfl

lemma Layout.get?_relabel (l : Layout) (id : ModuleId) :
    (l.relabel ρ).get? (ρ id) = (l.get? id).map (Node.relabel ρ) := by
  simp only [get?, relabel, List.find?_map]
  congr 2
  funext n
  simp [Node.relabel, hρ.eq_iff]

lemma Schedule.position?_relabel (s : Schedule) (id : ModuleId) :
    (s.relabel ρ).position? (ρ id) = s.position? id := by
  simp only [position?, relabel, List.idxOf?, List.findIdx?_map]
  congr 1
  funext other
  simp [hρ.beq_eq]

/-! ## The statements -/

lemma inputStatements_relabel (layout : Layout) (previous : Option ModuleId) (m : Module)
    (n : Node) :
    inputStatements (layout.relabel ρ) (previous.map ρ) (m.relabel ρ) (n.relabel ρ) =
      inputStatements layout previous m n := by
  rw [inputStatements, inputStatements, Module.relabel_mainInput]
  cases m.mainInput with
  | none => rfl
  | some p =>
      have hprevious : previous.map ρ = some (ρ p) ↔ previous = some p := by
        rw [← Option.map_some, (Option.map_injective hρ).eq_iff]
      have hcell : ((layout.relabel ρ).get? (ρ p)).bind Node.outputCell? =
          (layout.get? p).bind Node.outputCell? := by
        rw [Layout.get?_relabel hρ]
        cases layout.get? p <;> rfl
      simp only [Option.map_some, hprevious, hcell]
      rfl

lemma drivenCells_relabel (m : Module) (n : Node) :
    drivenCells (m.relabel ρ) (n.relabel ρ) = (drivenCells m n).map (Prod.map ρ id) := by
  have hcells : ((m.params.map (Param.relabel ρ)).mapIdx fun index p =>
        p.binding.map (·, (n.relabel ρ).paramCell index)) =
      (m.params.mapIdx fun index p => p.binding.map (·, n.paramCell index)).map
        (Option.map (Prod.map ρ id)) := by
    apply List.ext_getElem?
    intro k
    simp only [List.getElem?_mapIdx, List.getElem?_map, Option.map_map]
    congr 1
    funext p
    cases hp : p.binding <;> simp [Param.relabel, hp, Node.relabel, Node.paramCell]
  simp only [drivenCells, Module.relabel_params, hcells, List.reduceOption_map, List.filter_map]
  congr 1
  apply List.filter_congr
  intro x _
  simp [hρ.eq_iff]

lemma allDrivenCells_relabel (placed : List (Module × Node)) :
    allDrivenCells (placed.map (Prod.map (Module.relabel ρ) (Node.relabel ρ))) =
      (allDrivenCells placed).map (Prod.map ρ id) := by
  simp only [allDrivenCells, List.flatMap_map, List.map_flatMap]
  congr 1
  funext x
  exact drivenCells_relabel hρ x.1 x.2

lemma fanOutStatements_relabel (driven : List (ModuleId × Nat)) (m : Module) (n : Node) :
    fanOutStatements (driven.map (Prod.map ρ id)) (m.relabel ρ) (n.relabel ρ) =
      fanOutStatements driven m n := by
  have hfilter : (driven.map (Prod.map ρ id)).filter (·.1 = (m.relabel ρ).id) =
      (driven.filter (·.1 = m.id)).map (Prod.map ρ id) := by
    rw [List.filter_map]
    congr 1
    apply List.filter_congr
    intro x _
    simp [hρ.eq_iff]
  rw [fanOutStatements, hfilter, List.map_map]
  rfl

lemma moduleStatements_relabel (layout : Layout) (driven : List (ModuleId × Nat))
    (previous : Option ModuleId) (m : Module) (n : Node) :
    moduleStatements (layout.relabel ρ) (driven.map (Prod.map ρ id)) (previous.map ρ)
        (m.relabel ρ) (n.relabel ρ) =
      (moduleStatements layout driven previous m n).map (Statement.relabel ρ) := by
  -- only the fragment names a module
  have hinput : (inputStatements layout previous m n).map (Statement.relabel ρ) =
      inputStatements layout previous m n := by
    rw [inputStatements]
    cases m.mainInput with
    | none => rfl
    | some p =>
        simp only
        split_ifs
        · rfl
        · cases (layout.get? p).bind Node.outputCell? <;> rfl
        · cases (layout.get? p).bind Node.outputCell? <;> rfl
  have houtput : (outputStatements n).map (Statement.relabel ρ) = outputStatements n := by
    rw [outputStatements]
    split_ifs <;> rfl
  have hfan : (fanOutStatements driven m n).map (Statement.relabel ρ) =
      fanOutStatements driven m n := List.map_map
  simp only [moduleStatements, inputStatements_relabel hρ, fanOutStatements_relabel hρ,
    List.map_append, hinput, houtput, hfan]
  rfl

lemma statementsFrom_relabel (layout : Layout) (driven : List (ModuleId × Nat))
    (placed : List (Module × Node)) :
    ∀ previous : Option ModuleId,
      statementsFrom (layout.relabel ρ) (driven.map (Prod.map ρ id)) (previous.map ρ)
          (placed.map (Prod.map (Module.relabel ρ) (Node.relabel ρ))) =
        (statementsFrom layout driven previous placed).map (Statement.relabel ρ) := by
  induction placed with
  | nil =>
      intro previous
      rfl
  | cons x placed ih =>
      intro previous
      have hrest := ih (some x.1.id)
      simp only [List.map_cons, Prod.map, statementsFrom, moduleStatements_relabel hρ,
        List.map_append]
      congr 1

lemma program_relabel (modules : List Module) (layout : Layout) :
    program (modules.map (Module.relabel ρ)) (layout.relabel ρ) =
      (program modules layout).map (Statement.relabel ρ) := by
  have hprogram := statementsFrom_relabel hρ layout (allDrivenCells (modules.zip layout.nodes))
    (modules.zip layout.nodes) none
  simp only [program, zip_relabel, allDrivenCells_relabel hρ]
  exact hprogram

/-! ## The initial values -/

lemma paramEntry_relabel (schedule : Schedule) (k : Nat) (p : Param) :
    paramEntry (schedule.relabel ρ) k (p.relabel ρ) = paramEntry schedule k p := by
  rw [paramEntry, paramEntry, Param.relabel]
  cases p.binding with
  | none => rfl
  | some producer => simp only [Option.map_some, Schedule.position?_relabel hρ]

lemma entries_relabel (modules : List Module) (schedule : Schedule) (layout : Layout) :
    entries (modules.map (Module.relabel ρ)) (schedule.relabel ρ) (layout.relabel ρ) =
      entries modules schedule layout := by
  have hcells : ∀ (k : Nat) (m : Module) (n : Node),
      moduleEntries (schedule.relabel ρ) k (m.relabel ρ) (n.relabel ρ) =
        moduleEntries schedule k m n := by
    intro k m n
    simp only [moduleEntries, Module.relabel_params, List.map_map]
    congr 2
    funext p
    exact paramEntry_relabel hρ schedule k p
  simp only [entries, zip_relabel]
  congr 1
  apply List.ext_getElem?
  intro k
  simp only [List.getElem?_mapIdx, List.getElem?_map, Option.map_map]
  congr 1
  funext x
  exact hcells k x.1 x.2

/-! ## The patch -/

/-- **The patch of relabelled modules is the relabelled patch.** -/
theorem Patch.ofModules_relabel (modules : List Module) :
    Patch.ofModules (modules.map (Module.relabel ρ)) = (Patch.ofModules modules).relabel ρ := by
  have hschedule : Schedule.ofModules (modules.map (Module.relabel ρ)) =
      (Schedule.ofModules modules).relabel ρ := congrArg Schedule.mk (map_id_relabel ρ modules)
  simp only [ofModules, relabel, hschedule, Layout.ofModules_relabel hρ, entries_relabel hρ,
    program_relabel hρ, renderProgram, List.map_map]
  congr 2
  apply List.map_congr_left
  intro x _
  exact x.render_relabel ρ

end

end Patchbay
