import Patchbay.Event
import Patchbay.Proofs.Checks
import Mathlib.Data.Finset.Card

/-!
# What a removal clears

A module can be bound to many slots, of other modules and of its own.  Removing it frees these slots
and no others, whichever modules they belong to, and reports their number.

* `Module.Cleared` — a module with the slots freed that are bound to a producer, and nothing else
  changed.
* `Graph.modules_without` — the modules that remain, in their order.
* `Module.count_producers`, `Graph.referenceCount_eq` — what is counted per module and per graph.
* `Graph.removal_clears` — **what a removal is refused for, what it changes and what it reports.**
-/

namespace Patchbay

/-! ## One module -/

namespace Module

/-- **A module when a producer has gone**: the slots that were bound to the producer are free, and
everything else is as it was. -/
structure Cleared (producer : ModuleId) (m m' : Module) : Prop where
  id : m'.id = m.id
  definition : m'.definition = m.definition
  name : m'.name = m.name
  values : m'.params.map (fun p => (p.name, p.value)) = m.params.map fun p => (p.name, p.value)
  bound : ∀ slot, m'.bound? slot =
    if m.bound? slot = some producer then none else m.bound? slot

lemma bound?_clearReferences (producer : ModuleId) (m : Module) (slot : Slot) :
    (m.clearReferences producer).bound? slot = release producer (m.bound? slot) := by
  cases slot with
  | input => rfl
  | param name =>
      simp only [bound?, param?, clearReferences, List.find?_map, Function.comp_def]
      cases m.params.find? (·.name = name) with
      | none => rfl
      | some p => rfl

lemma cleared_clearReferences (producer : ModuleId) (m : Module) :
    m.Cleared producer (m.clearReferences producer) where
  id := rfl
  definition := rfl
  name := rfl
  values := by simp [clearReferences, Function.comp_def]
  bound := bound?_clearReferences producer m

/-- The producers of a module are listed once for every slot. -/
lemma count_producers {m : Module} (hinput : m.inChannels = 0 → m.mainInput = none)
    (hnames : (m.params.map (·.name)).Nodup) (producer : ModuleId) :
    m.producers.count producer = m.jacks.countP fun j => m.bound? j.slot = some producer := by
  have hparams : (m.params.filterMap (·.binding)).count producer =
      m.params.countP fun p => m.bound? (.param p.name) = some producer := by
    rw [List.count, List.countP_filterMap]
    refine List.countP_congr fun p hp => ?_
    rw [bound?_param hnames hp]
    cases p.binding <;> simp
  have hmain : m.mainInput.toList.count producer =
      (if m.inChannels = 0 then [] else [(⟨m.id, .input⟩ : Jack)]).countP
        fun j => m.bound? j.slot = some producer := by
    split_ifs with hin
    · simp [hinput hin]
    · rw [List.countP_singleton, bound?]
      cases m.mainInput with
      | none => rfl
      | some p => simp [List.count_singleton]
  rw [producers, List.count_append, hmain, hparams, jacks, List.countP_append, List.countP_map]
  rfl

end Module

namespace Graph

variable {g h : Graph} {id : ModuleId} {m : Module}

/-- Emptying one place of an arena leaves out the module that is there. -/
lemma reduceOption_set_none {keep : Module → Bool} :
    ∀ (places : List (Option Module)) (k : Nat),
      (∀ i m, places[i]? = some (some m) → (keep m = true ↔ i ≠ k)) →
      (places.set k none).reduceOption = places.reduceOption.filter keep
  | [], k, _ => by simp
  | place :: places, 0, hkeep => by
      -- all places behind the emptied one are kept
      have hrest : places.reduceOption.filter keep = places.reduceOption := by
        rw [List.filter_eq_self]
        intro m hm
        rcases List.mem_iff_getElem?.mp (List.reduceOption_mem_iff.mp hm) with ⟨i, hi⟩
        exact (hkeep (i + 1) m hi).mpr (Nat.succ_ne_zero i)
      rw [List.set_cons_zero, List.reduceOption_cons_of_none]
      cases place with
      | none => rw [List.reduceOption_cons_of_none, hrest]
      | some m =>
          have hm : ¬ keep m = true := fun h => (hkeep 0 m rfl).mp h rfl
          rw [List.reduceOption_cons_of_some, List.filter_cons_of_neg hm, hrest]
  | place :: places, k + 1, hkeep => by
      have ih := reduceOption_set_none places k fun i m hi =>
        (hkeep (i + 1) m hi).trans (not_congr Nat.succ_inj)
      rw [List.set_cons_succ]
      cases place with
      | none => rw [List.reduceOption_cons_of_none, List.reduceOption_cons_of_none, ih]
      | some m =>
          have hm : keep m = true := (hkeep 0 m rfl).mpr (Nat.succ_ne_zero k).symm
          rw [List.reduceOption_cons_of_some, List.reduceOption_cons_of_some,
            List.filter_cons_of_pos hm, ih]

/-- **The modules that remain**, in their order. -/
lemma modules_without (hg : g.WellFormed) (id : ModuleId) :
    (g.without id).modules = (g.modules.filter (·.id ≠ id)).map (·.clearReferences id) := by
  have hkeep : ∀ i m, g.arena.toList[i]? = some (some m) →
      (decide (m.id ≠ id) = true ↔ i ≠ id.index) := by
    intro i m hi
    have hm : g.get? ⟨i⟩ = some m := get?_eq_some_iff.mpr (by simpa using hi)
    rcases id with ⟨k⟩
    simp [hg.id_eq _ _ hm]
  have hset : (g.arena.toList.map (Option.map (·.clearReferences id))).set id.index none =
      (g.arena.toList.set id.index none).map (Option.map (·.clearReferences id)) := by
    rw [List.map_set]
    rfl
  rw [modules, without, Array.toList_setIfInBounds, Array.toList_map, hset,
    List.reduceOption_map, reduceOption_set_none _ _ hkeep, modules]

/-- The number of slots that are bound to a producer, over all modules. -/
lemma referenceCount_eq (hg : g.WellFormed) (producer : ModuleId) :
    g.referenceCount producer = g.jacks.countP fun j => g.bound? j = some producer := by
  rw [referenceCount, jacks, List.count_flatMap, List.countP_flatMap]
  congr 1
  refine List.map_congr_left fun m hm => ?_
  have hget := (mem_modules_iff hg).mp hm
  have hinput : m.inChannels = 0 → m.mainInput = none := by
    intro hin
    rw [Option.eq_none_iff_forall_ne_some]
    exact fun p hp => ((hg.fits _ _ hget).mainInput p hp).1 hin
  simp only [Function.comp_apply]
  rw [Module.count_producers hinput (hg.params_nodup hget)]
  refine List.countP_congr fun j hj => ?_
  rw [bound?, (Module.mem_jacks_iff.mp hj).1, hget, Option.bind_some]

/-- The slots that are bound to a producer. -/
def references (g : Graph) (producer : ModuleId) : Finset Jack :=
  (g.jacks.filter fun j => g.bound? j = some producer).toFinset

lemma mem_references_iff (hg : g.WellFormed) {producer : ModuleId} {j : Jack} :
    j ∈ g.references producer ↔ g.bound? j = some producer := by
  rw [references, List.mem_toFinset, List.mem_filter, decide_eq_true_eq]
  refine and_iff_right_of_imp fun hbound => ?_
  rcases hg.exists_of_bound? hbound with ⟨m, hm, -, hslot, -⟩
  exact (mem_jacks_iff hg).mpr ⟨m, hm, hslot⟩

lemma card_references (hg : g.WellFormed) (producer : ModuleId) :
    (g.references producer).card = g.referenceCount producer := by
  rw [references, List.toFinset_card_of_nodup ((jacks_nodup hg).filter _), referenceCount_eq hg,
    List.countP_eq_length_filter]

/-! ## Removing a module -/

/-- What a removal is refused for. -/
lemma remove_eq_error_iff {x : GraphError} :
    g.remove id = .error x ↔
      g.get? id = none ∧ x = .notMember id ∨
        g.get? id ≠ none ∧ id = .sink ∧ x = .sinkRemoval := by
  refine (apply_eq_error_iff (e := .remove id)).trans ?_
  simp only [Edit.checks, firstFails_cons, not_firstFails_nil, Check.Fails]
  cases g.get? id <;> simp

/-- **Removals, exactly**, in every graph that can come about.  A removal is refused if and only if
the handle has no module or is that of the sink, and then nothing changes and nothing is reported.
Otherwise the modules are the former ones without the removed one, in their order, each with just
those slots freed that were bound to it; and the number reported is that of all slots of the former
graph that were bound to it, its own among them. -/
theorem removal_clears (hg : g.Reachable) (id : ModuleId) :
    (g.remove id = .error (.notMember id) ↔ g.get? id = none) ∧
    (g.remove id = .error .sinkRemoval ↔ id = .sink) ∧
    (g.get? id = none ∨ id = .sink →
      g.next (.remove id) = g ∧ g.editEvents (.remove id) = []) ∧
    (g.get? id ≠ none → id ≠ .sink → ∃ h slots, g.remove id = .ok h ∧
      h.name = g.name ∧ h.catalog = g.catalog ∧ h.arena.size = g.arena.size ∧
      (∀ other, h.get? other ≠ none ↔ g.get? other ≠ none ∧ other ≠ id) ∧
      List.Forall₂ (Module.Cleared id) (g.modules.filter (·.id ≠ id)) h.modules ∧
      (∀ j, j ∈ slots ↔ g.bound? j = some id) ∧
      g.editEvents (.remove id) = [.removed id (Finset.card slots)]) := by
  have hwf := hg.wellFormed
  have hsink : g.get? .sink ≠ none := by
    rcases hwf.sink with ⟨m, hm, -⟩
    simp [hm]
  refine ⟨?_, ?_, ?_, fun hmember hne => ?_⟩
  · simp [remove_eq_error_iff]
  · rw [remove_eq_error_iff]
    constructor
    · rintro (⟨-, ⟨⟩⟩ | ⟨-, rfl, -⟩)
      rfl
    · rintro rfl
      exact Or.inr ⟨hsink, rfl, rfl⟩
  · intro hrefused
    have herror : ∃ x, g.apply (.remove id) = .error x := by
      rcases hrefused with hnone | rfl
      · exact ⟨_, remove_eq_error_iff.mpr (Or.inl ⟨hnone, rfl⟩)⟩
      · exact ⟨_, remove_eq_error_iff.mpr (Or.inr ⟨hsink, rfl, rfl⟩)⟩
    rcases herror with ⟨x, hx⟩
    exact ⟨next_of_error hx, editEvents_of_error hx⟩
  · have hremove : g.remove id = .ok (g.without id) :=
      remove_eq_ok_iff.mpr ⟨Option.ne_none_iff_exists'.mp hmember, hne, rfl⟩
    refine ⟨g.without id, g.references id, hremove, rfl, rfl, by simp [without], ?_, ?_,
      fun j => mem_references_iff hwf, ?_⟩
    · intro other
      rw [get?_without]
      split_ifs with hother <;> simp [hother]
    · rw [modules_without hwf, List.forall₂_map_right_iff, List.forall₂_same]
      exact fun m _ => Module.cleared_clearReferences id m
    · have happly : g.apply (.remove id) = .ok (g.without id) := hremove
      rw [editEvents_of_ok happly, card_references hwf]
      rfl

/-- The demo patch with its second oscillator driving both oscillators, besides the gain. -/
def demoDriven : Graph :=
  demo.applyAll [.connectParam ⟨3⟩ ⟨1⟩ "freq", .connectParam ⟨3⟩ ⟨3⟩ "freq"]

/-- Three slots are bound to the second oscillator, one of them its own. -/
theorem removal_clears_demo :
    demoDriven.remove ⟨5⟩ = .error (.notMember ⟨5⟩) ∧
    demoDriven.remove .sink = .error .sinkRemoval ∧
    ∃ (h : Graph) (slots : Finset Jack), demoDriven.remove ⟨3⟩ = .ok h ∧
      (∀ j, j ∈ slots ↔ demoDriven.bound? j = some ⟨3⟩) ∧ slots.card = 3 := by
  have hreachable : demoDriven.Reachable := demo_reachable.applyAll _
  refine ⟨(removal_clears hreachable ⟨5⟩).1.mpr (by decide +kernel),
    (removal_clears hreachable .sink).2.1.mpr rfl, ?_⟩
  rcases (removal_clears hreachable ⟨3⟩).2.2.2 (by decide +kernel) (by decide) with
    ⟨h, slots, hremove, -, -, -, -, -, hslots, hevents⟩
  have hreport : demoDriven.editEvents (.remove ⟨3⟩) = [.removed ⟨3⟩ 3] := by decide +kernel
  rw [hreport] at hevents
  exact ⟨h, slots, hremove, hslots, by simpa using hevents.symm⟩

end Graph

end Patchbay
