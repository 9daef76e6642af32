import Patchbay.Proofs.DepthFirst
import Patchbay.Proofs.Relabel

/-!
# Graphs that look alike from the sink

Compiling a graph starts at the sink and follows the slots.  Two graphs that cannot be told apart in
this way compile to the same, whatever else they hold and whatever handles their modules have.

* `Graph.Mirrors` — what the sink of the first graph needs is in the second one, under new handles.
* `Graph.Mirrors.visitSlots`, `Graph.Mirrors.depthFirst` — the recursion takes the same turns in
  both graphs.
* `Graph.compile_eq` — a compiled graph is made of its order and of what the handles stand for.
* `Graph.Mirrors.compile` — **a mirrored graph compiles to the relabelled patch**, or fails with the
  same error.
-/

namespace Patchbay.Graph

/-- `h` holds what the sink of `g` needs, every module under its new handle. -/
structure Mirrors (ρ : ModuleId → ModuleId) (g h : Graph) : Prop where
  injective : Function.Injective ρ
  sink : ρ .sink = .sink
  get? : ∀ id m, g.Live id → g.get? id = some m → h.get? (ρ id) = some (m.relabel ρ)

variable {g h : Graph} {ρ : ModuleId → ModuleId}

lemma slots_relabel (m : Module) : (m.relabel ρ).slots = m.slots.map (Option.map ρ) := by
  simp [Module.slots, Param.relabel]

/-- What a slot of a needed module is bound to is needed. -/
lemma Live.of_mem_slots {id p : ModuleId} {m : Module} (hid : g.Live id) (hm : g.get? id = some m)
    (hp : some p ∈ m.slots) : g.Live p := by
  refine hid.tail ((dependsOn_iff hm).mpr ?_)
  rw [← Module.reduceOption_slots]
  exact List.reduceOption_mem_iff.mpr hp

namespace Mirrors

/-- The visit of a module is the same in both graphs if those of its slots are. -/
lemma visit (hmirror : Mirrors ρ g h) {path : Finset ModuleId} {id : ModuleId} {m : Module}
    (hm : g.get? id = some m) (hlive : g.Live id) (hid : id ∉ path) (hid' : ρ id ∉ path.image ρ)
    {order : List ModuleId}
    (hslots : h.visitSlots ((insert id path).image ρ) (m.slots.map (Option.map ρ)) (order.map ρ) =
      (g.visitSlots (insert id path) m.slots order).map (List.map ρ)) :
    h.visit (path.image ρ) (ρ id) hid' (order.map ρ) =
      (g.visit path id hid order).map (List.map ρ) := by
  have hm' := hmirror.get? id m hlive hm
  cases hstarved : m.isStarved with
  | true =>
      rw [visit_of_starved hid hm hstarved, visit_of_starved hid' hm' (by simpa using hstarved)]
      rfl
  | false =>
      rw [Finset.image_insert] at hslots
      rw [visit_eq hid hm hstarved, visit_eq hid' hm' (by simpa using hstarved), slots_relabel,
        hslots]
      cases g.visitSlots (insert id path) m.slots order with
      | error e => rfl
      | ok order => simp [Except.map]

/-- **The slots are visited alike**, by induction on what is not open yet and, within one visit, on
the slots that are left. -/
theorem visitSlots (hmirror : Mirrors ρ g h) (hfull : ∀ id, g.Live id → ∃ m, g.get? id = some m)
    (path : Finset ModuleId) :
    ∀ (slots : List (Option ModuleId)) (order : List ModuleId),
      (∀ p, some p ∈ slots → g.Live p) →
      h.visitSlots (path.image ρ) (slots.map (Option.map ρ)) (order.map ρ) =
        (g.visitSlots path slots order).map (List.map ρ) := by
  induction hn : g.unopened path using Nat.strongRecOn generalizing path with
  | _ n ih =>
      intro slots
      induction slots with
      | nil =>
          intro order _
          simp [Graph.visitSlots, Except.map]
      | cons slot slots ihslots =>
          intro order hlive
          have hrest := fun order => ihslots order fun p hp => hlive p (List.mem_cons_of_mem _ hp)
          cases slot with
          | none =>
              rw [List.map_cons, Option.map_none, Graph.visitSlots, Graph.visitSlots]
              exact hrest order
          | some p =>
              have hp := hlive p (List.mem_cons_self ..)
              rcases hfull p hp with ⟨q, hq⟩
              rw [List.map_cons, Option.map_some]
              by_cases horder : p ∈ order
              · rw [visitSlots_of_mem horder, visitSlots_of_mem (List.mem_map_of_mem horder)]
                exact hrest order
              · have horder' : ρ p ∉ order.map ρ :=
                  mt (List.mem_map_of_injective hmirror.injective).mp horder
                by_cases hopen : p ∈ path
                · have hq' := hmirror.get? p q hp hq
                  rw [visitSlots_of_open horder hopen hq,
                    visitSlots_of_open horder' (Finset.mem_image_of_mem ρ hopen) hq']
                  rfl
                · have hopen' : ρ p ∉ path.image ρ :=
                    mt hmirror.injective.mem_finset_image.mp hopen
                  have hinner := ih _ (hn ▸ unopened_insert_lt hq hopen) (insert p path) rfl q.slots
                    order fun r hr => hp.of_mem_slots hq hr
                  rw [visitSlots_of_new horder hopen, visitSlots_of_new horder' hopen',
                    hmirror.visit hq hp hopen hopen' hinner]
                  cases g.visit path p hopen order with
                  | error e => rfl
                  | ok order => exact hrest order

/-- The recursion finds the order of the first graph, under the new handles. -/
lemma depthFirst (hmirror : Mirrors ρ g h) (hg : g.WellFormed) :
    h.depthFirst = g.depthFirst.map (List.map ρ) := by
  rcases hg.sink with ⟨m, hm, -⟩
  have hfull : ∀ id, g.Live id → ∃ m, g.get? id = some m := fun id hid => hg.exists_of_live hid
  have hslots := hmirror.visitSlots hfull (insert .sink ∅) m.slots []
    fun p hp => Live.sink.of_mem_slots hm hp
  have hvisit := hmirror.visit hm .sink (Finset.notMem_empty _) (by simp) hslots
  simp only [Finset.image_empty, hmirror.sink] at hvisit
  exact hvisit

end Mirrors

/-! ## Compiling along the recursion -/

/-- A compiled graph is made of its order and of what the handles in it stand for. -/
lemma compile_eq (hid : ∀ id m, g.get? id = some m → m.id = id) :
    g.compile = g.depthFirst.map fun order => Patch.ofModules (order.filterMap g.get?) := by
  have hwalk := map_scheduled_eq_depthFirst hid
  cases hs : g.scheduled with
  | error fault =>
      rw [hwalk.2 fault hs, compile, hs]
      rfl
  | ok modules =>
      have hmember := ((scheduled_spec hid).1 modules hs).member
      have hmodules : (modules.map (·.id)).filterMap g.get? = modules := by
        rw [List.filterMap_map]
        exact (List.filterMap_congr hmember).trans List.filterMap_some
      rw [hwalk.1 modules hs, compile, hs]
      simp only [Except.map, hmodules]

/-- Only what the sink needs is in the order. -/
lemma live_of_mem_depthFirst (hid : ∀ id m, g.get? id = some m → m.id = id)
    {order : List ModuleId} (horder : g.depthFirst = .ok order) {id : ModuleId} (h : id ∈ order) :
    g.Live id := by
  have hwalk := map_scheduled_eq_depthFirst hid
  cases hs : g.scheduled with
  | error fault =>
      rw [hwalk.2 fault hs] at horder
      cases horder
  | ok modules =>
      rw [hwalk.1 modules hs] at horder
      cases horder
      exact (((scheduled_spec hid).1 modules hs).live_iff id).mp h

/-- **A graph that mirrors another one compiles to the relabelled patch.**  If the one does not
compile, the other fails with the same error. -/
theorem Mirrors.compile (hmirror : Mirrors ρ g h) (hg : g.WellFormed)
    (hid : ∀ id m, h.get? id = some m → m.id = id) :
    h.compile = g.compile.map (Patch.relabel ρ) := by
  rw [compile_eq hid, compile_eq hg.id_eq, hmirror.depthFirst hg]
  cases horder : g.depthFirst with
  | error e => rfl
  | ok order =>
      have hmodules : (order.map ρ).filterMap h.get? =
          (order.filterMap g.get?).map (Module.relabel ρ) := by
        rw [List.filterMap_map, List.map_filterMap]
        apply List.filterMap_congr
        intro id hmem
        have hlive := live_of_mem_depthFirst hg.id_eq horder hmem
        rcases hg.exists_of_live hlive with ⟨m, hm⟩
        simp [hm, hmirror.get? id m hlive hm]
      simp only [Except.map, hmodules, Patch.ofModules_relabel hmirror.injective]

end Patchbay.Graph
