import Patchbay.Proofs.Scheduling
import Mathlib.Data.Finset.Card
import Mathlib.Data.Finset.Image
import Mathlib.Data.List.ReduceOption

/-!
# The walk as a recursion

The order of a graph is usually told as a recursion: to visit a module, visit the producers of its
slots one after the other and then put the module at the end.  The walk does the same with a path of
frames in place of the calls that are still open.  This file states the recursion and shows that the
walk gives its result, in success and in failure.

* `Graph.visit`, `Graph.visitSlots` — **the recursion**, with the set of the modules whose visits
  are still open and the list of those that are finished.
* `Walk.outlook` — what the recursion makes of the rest of a walk: the path is read as a stack of
  open visits, each of which goes on with its remaining producers.
* `Walk.outlook_eq_of_moves`, `Walk.outlook_eq_of_stops` — a move does not change the outlook, and
  where the walk fails the recursion does so for the same reason.
* `Graph.schedule_eq_depthFirst` — **the walk is the recursion.**
-/

namespace Patchbay

/-- All slots of a module, the main input first and the parameters in their order. -/
def Module.slots (m : Module) : List (Option ModuleId) := m.mainInput :: m.params.map (·.binding)

lemma Module.reduceOption_slots (m : Module) : m.slots.reduceOption = m.producers := by
  cases hinput : m.mainInput with
  | none => simp [slots, producers, hinput, List.reduceOption, List.filterMap_map]
  | some p => simp [slots, producers, hinput, List.reduceOption, List.filterMap_map]

namespace Graph

/-! ## The recursion -/

/-- How many handles of a graph are not among those given. -/
def unopened (g : Graph) (path : Finset ModuleId) : Nat :=
  ((Finset.range g.arena.size).filter fun k => (⟨k⟩ : ModuleId) ∉ path).card

/-- Opening the visit of a module leaves fewer to be opened. -/
lemma unopened_insert_lt {g : Graph} {path : Finset ModuleId} {id : ModuleId} {m : Module}
    (hm : g.get? id = some m) (hid : id ∉ path) :
    g.unopened (insert id path) < g.unopened path := by
  apply Finset.card_lt_card
  rw [Finset.ssubset_iff_of_subset]
  · refine ⟨id.index, ?_, ?_⟩
    · simpa using ⟨Walk.index_lt_of_get? hm, hid⟩
    · simp
  · intro k hk
    simp only [Finset.mem_filter, Finset.mem_insert, not_or] at hk ⊢
    exact ⟨hk.1, hk.2.2⟩

mutual

/-- **Visits a module** that is not on the path and not in the order: it has to have the main input
that it takes, then its slots are visited in turn, and then it is put at the end of the order. -/
def visit (g : Graph) (path : Finset ModuleId) (id : ModuleId) (_hid : id ∉ path)
    (order : List ModuleId) : Except GraphError (List ModuleId) :=
  match _hm : g.get? id with
  | none => .error (.notMember id)
  | some m =>
    if 0 < m.inChannels ∧ m.mainInput = none then .error (.unconnectedInput m.name)
    else do
      let order ← visitSlots g (insert id path) m.slots order
      return order ++ [id]
termination_by (g.unopened path, 0)
decreasing_by
  apply Prod.Lex.left
  exact unopened_insert_lt _hm _hid

/-- Visits what slots are bound to, one slot after the other.  A producer that is in the order
already is passed over, and one that is on the path lies on a cycle. -/
def visitSlots (g : Graph) (path : Finset ModuleId) :
    List (Option ModuleId) → List ModuleId → Except GraphError (List ModuleId)
  | [], order => .ok order
  | none :: slots, order => visitSlots g path slots order
  | some producer :: slots, order =>
    if producer ∈ order then visitSlots g path slots order
    else if hpath : producer ∈ path then
      match g.get? producer with
      | none => .error (.notMember producer)
      | some q => .error (.cycle q.name)
    else do
      let order ← visit g path producer hpath order
      visitSlots g path slots order
termination_by slots => (g.unopened path, slots.length + 1)

end

/-- The order of a graph by recursion, from the sink. -/
def depthFirst (g : Graph) : Except GraphError (List ModuleId) :=
  g.visit ∅ .sink (Finset.notMem_empty _) []

variable {g : Graph} {path : Finset ModuleId}

/-- Visiting a module that is there and has the input it takes. -/
lemma visit_eq {id : ModuleId} {m : Module} (hid : id ∉ path) (hm : g.get? id = some m)
    (hfed : m.isStarved = false) (order : List ModuleId) :
    g.visit path id hid order =
      (g.visitSlots (insert id path) m.slots order).map (· ++ [id]) := by
  have hfed' : ¬ (0 < m.inChannels ∧ m.mainInput = none) := by
    rw [← isStarved_iff, hfed]
    simp
  rw [visit]
  split
  · rename_i hnone
    simp [hm] at hnone
  · rename_i m' hm'
    cases hm.symm.trans hm'
    rw [if_neg hfed']
    rfl

lemma visit_of_missing {id : ModuleId} (hid : id ∉ path) (hm : g.get? id = none)
    (order : List ModuleId) : g.visit path id hid order = .error (.notMember id) := by
  rw [visit]
  split
  · rfl
  · rename_i hm'
    simp [hm] at hm'

lemma visit_of_starved {id : ModuleId} {m : Module} (hid : id ∉ path) (hm : g.get? id = some m)
    (hstarved : m.isStarved = true) (order : List ModuleId) :
    g.visit path id hid order = .error (.unconnectedInput m.name) := by
  rw [visit]
  split
  · rename_i hnone
    simp [hm] at hnone
  · rename_i m' hm'
    cases hm.symm.trans hm'
    rw [if_pos (isStarved_iff.mp hstarved)]

/-! Visiting a slot that is bound to a producer. -/

lemma visitSlots_of_mem {p : ModuleId} {order : List ModuleId} (hp : p ∈ order)
    (slots : List (Option ModuleId)) :
    g.visitSlots path (some p :: slots) order = g.visitSlots path slots order := by
  rw [visitSlots, if_pos hp]

lemma visitSlots_of_open {p : ModuleId} {order : List ModuleId} {q : Module} (hp : p ∉ order)
    (hopen : p ∈ path) (hq : g.get? p = some q) (slots : List (Option ModuleId)) :
    g.visitSlots path (some p :: slots) order = .error (.cycle q.name) := by
  rw [visitSlots, if_neg hp, dif_pos hopen, hq]

lemma visitSlots_of_new {p : ModuleId} {order : List ModuleId} (hp : p ∉ order) (hnew : p ∉ path)
    (slots : List (Option ModuleId)) :
    g.visitSlots path (some p :: slots) order =
      g.visit path p hnew order >>= g.visitSlots path slots := by
  rw [visitSlots, if_neg hp, dif_neg hnew]

/-- Free slots do not count. -/
lemma visitSlots_reduceOption (slots : List (Option ModuleId)) :
    ∀ order : List ModuleId,
      g.visitSlots path slots order = g.visitSlots path (slots.reduceOption.map some) order := by
  induction slots with
  | nil =>
      intro order
      rfl
  | cons slot slots ih =>
      intro order
      cases slot with
      | none =>
          rw [visitSlots, List.reduceOption_cons_of_none]
          exact ih order
      | some p =>
          rw [List.reduceOption_cons_of_some, List.map_cons, visitSlots, visitSlots]
          simp only [ih]

lemma visitSlots_slots (m : Module) (order : List ModuleId) :
    g.visitSlots path m.slots order = g.visitSlots path (m.producers.map some) order := by
  rw [visitSlots_reduceOption, Module.reduceOption_slots]

end Graph

/-! ## The path as a stack of open visits -/

namespace Walk

variable {g : Graph}

lemma Trail.fed_of_mem {done : List ModuleId} {p : ModuleId} :
    ∀ {child : Option ModuleId} {path : List Frame}, Trail g done child path →
      p ∈ path.map (·.id) → ∃ q, g.get? p = some q ∧ q.isStarved = false
  | _, [], _, hp => by simp at hp
  | _, f :: path, ⟨hf, _, hpath⟩, hp => by
      rw [List.map_cons, List.mem_cons] at hp
      rcases hp with rfl | hp
      · exact ⟨f.entry, hf⟩
      · exact hpath.fed_of_mem hp

/-- The modules whose visits are open. -/
def openIds (path : List Frame) : Finset ModuleId := (path.map (·.id)).toFinset

@[simp] lemma openIds_cons (f : Frame) (path : List Frame) :
    openIds (f :: path) = insert f.id (openIds path) := List.toFinset_cons

/-- What the recursion makes of open visits, the innermost first: each goes on with the producers
that are still to be looked at, and is then put at the end of the order. -/
def unwind (g : Graph) : List Frame → List ModuleId → Except GraphError (List ModuleId)
  | [], order => .ok order
  | ⟨id, _, pending⟩ :: path, order => do
      let order ← g.visitSlots (insert id (openIds path)) (pending.map some) order
      unwind g path (order ++ [id])

section

variable {id p : ModuleId} {m q : Module} {pending : List ModuleId} {path : List Frame}
  {order : List ModuleId}

lemma unwind_place : unwind g (⟨id, m, []⟩ :: path) order = unwind g path (order ++ [id]) := by
  rw [unwind, List.map_nil, Graph.visitSlots]
  rfl

lemma unwind_pass (hp : p ∈ order) :
    unwind g (⟨id, m, p :: pending⟩ :: path) order = unwind g (⟨id, m, pending⟩ :: path) order := by
  rw [unwind, List.map_cons, Graph.visitSlots_of_mem hp, unwind]

lemma unwind_enter (hp : p ∉ order) (hnew : p ∉ insert id (openIds path))
    (hq : g.get? p = some q) (hfed : q.isStarved = false) :
    unwind g (⟨id, m, p :: pending⟩ :: path) order =
      unwind g (⟨p, q, q.producers⟩ :: ⟨id, m, pending⟩ :: path) order := by
  rw [unwind, List.map_cons, Graph.visitSlots_of_new hp hnew, Graph.visit_eq hnew hq hfed,
    Graph.visitSlots_slots, unwind, openIds_cons]
  cases g.visitSlots (insert p (insert id (openIds path))) (q.producers.map some) order <;> rfl

/-- An error in the innermost visit is that of all. -/
lemma unwind_error {e : GraphError}
    (h : g.visitSlots (insert id (openIds path)) (pending.map some) order = .error e) :
    unwind g (⟨id, m, pending⟩ :: path) order = .error e := by
  rw [unwind, h]
  rfl

end

/-- The handles of what is placed, in the order of placing. -/
def placedIds (w : Walk g) : List ModuleId := (w.placed.map (·.id)).reverse

/-- **The outlook of a walk**: the result of the recursion from where the walk is. -/
def outlook (w : Walk g) : Except GraphError (List ModuleId) := unwind g w.path w.placedIds

namespace Invariant

variable {w v : Walk g} {id p : ModuleId} {m : Module} {pending : List ModuleId} {path : List Frame}

lemma mem_placedIds_iff (hw : w.Invariant) : p ∈ w.placedIds ↔ w.marks.get p = some .placed := by
  rw [hw.placed p, placedIds, List.mem_reverse]

lemma mem_openIds_iff (hw : w.Invariant) (hpath : w.path = ⟨id, m, pending⟩ :: path) :
    p ∈ insert id (openIds path) ↔ w.marks.get p = some .entered := by
  rw [hw.entered p, hpath, ← List.mem_toFinset, List.map_cons, List.toFinset_cons]
  rfl

/-- A move does not change the outlook: each of the three moves is one step of the recursion. -/
theorem outlook_eq_of_moves (hid : ∀ id m, g.get? id = some m → m.id = id) (hw : w.Invariant)
    (h : w.Moves v) : v.outlook = w.outlook := by
  cases h with
  | @place id m path hpath =>
      have htrail := hw.trail
      rw [hpath] at htrail
      have hm : m.id = id := hid _ _ htrail.1.1
      rw [outlook, outlook, hpath, unwind_place, ← hm]
      simp [placedIds]
  | pass hpath hmark =>
      rw [outlook, outlook, hpath, unwind_pass (hw.mem_placedIds_iff.mpr hmark)]
      rfl
  | enter hpath hmark hq hfed =>
      have hplaced := mt hw.mem_placedIds_iff.mp (by rw [hmark]; simp)
      have hnew := mt (hw.mem_openIds_iff hpath).mp (by rw [hmark]; simp)
      rw [outlook, outlook, hpath, unwind_enter hplaced hnew hq hfed]
      rfl

/-- What is marked is there and has the input it takes. -/
lemma fed_of_marked (hw : w.Invariant) (hp : w.marks.get p ≠ none) :
    ∃ q, g.get? p = some q ∧ q.isStarved = false := by
  cases hmark : w.marks.get p with
  | none => exact absurd hmark hp
  | some mark =>
      cases mark with
      | entered => exact hw.trail.fed_of_mem ((hw.entered p).mp hmark)
      | placed =>
          rcases List.mem_map.mp ((hw.placed p).mp hmark) with ⟨q, hq, rfl⟩
          exact ⟨q, hw.member q hq⟩

/-- Where the walk fails, the recursion fails for the same reason. -/
theorem outlook_eq_of_stops (hw : w.Invariant) {fault : WalkFault}
    (hpath : w.path = ⟨id, m, p :: pending⟩ :: path) (h : w.Stops m p fault) :
    w.outlook = .error fault.toError := by
  rw [outlook, hpath]
  apply unwind_error
  by_cases hmark : w.marks.get p = none
  · have hplaced : p ∉ w.placedIds := mt hw.mem_placedIds_iff.mp (by simp [hmark])
    have hnew := mt (hw.mem_openIds_iff (p := p) hpath).mp (by simp [hmark])
    rw [List.map_cons, Graph.visitSlots_of_new hplaced hnew]
    cases h with
    | missing hp => rw [Graph.visit_of_missing hnew hp]; rfl
    | starved hq hstarved => rw [Graph.visit_of_starved hnew hq hstarved]; rfl
    | met hq hmet => simp [hmark] at hmet
  · rcases hw.fed_of_marked hmark with ⟨q, hq, hfed⟩
    cases h with
    | missing hp => simp [hq] at hp
    | starved hq' hstarved =>
        cases hq.symm.trans hq'
        simp [hfed] at hstarved
    | met hq' hmet =>
        have hplaced : p ∉ w.placedIds := mt hw.mem_placedIds_iff.mp (by simp [hmet])
        have hopen := (hw.mem_openIds_iff hpath).mpr hmet
        rw [List.map_cons, Graph.visitSlots_of_open hplaced hopen hq']
        rfl

end Invariant

end Walk

/-! ## The two orders -/

namespace Graph

variable {g : Graph}

/-- **The walk gives the result of the recursion**, the modules being named by their handles. -/
theorem map_scheduled_eq_depthFirst (hid : ∀ id m, g.get? id = some m → m.id = id) :
    (∀ modules, g.scheduled = .ok modules → g.depthFirst = .ok (modules.map (·.id))) ∧
    (∀ fault, g.scheduled = .error fault → g.depthFirst = .error fault.toError) := by
  rw [scheduled, Walk.enter, depthFirst]
  cases hsink : g.get? .sink with
  | none =>
      constructor
      · rintro modules ⟨⟩
      · rintro fault ⟨⟩
        exact visit_of_missing _ hsink _
  | some m =>
      by_cases hstarved : m.isStarved = true
      · simp only [hstarved, if_true]
        constructor
        · rintro modules ⟨⟩
        · rintro fault ⟨⟩
          exact visit_of_starved _ hsink hstarved _
      · have hfed : m.isStarved = false := by simpa using hstarved
        simp only [hstarved]
        -- entering the sink is the first step of the recursion, and every move is a further one
        set start : Walk g := ⟨(Marks.none g).set .sink .entered, [⟨.sink, m, m.producers⟩], []⟩
        have hstart : start.outlook = g.visit ∅ .sink (Finset.notMem_empty _) [] := by
          rw [visit_eq _ hsink hfed, visitSlots_slots]
          rfl
        have hspec := Walk.run_spec (P := fun w => w.Invariant ∧ w.outlook = start.outlook)
          (fun w v hw hmoves =>
            ⟨hw.1.step hid hmoves, (hw.1.outlook_eq_of_moves hid hmoves).trans hw.2⟩)
          start ⟨Walk.invariant_start hsink hfed, rfl⟩
        rw [← hstart]
        constructor
        · intro modules h
          rcases hspec.1 modules h with ⟨w, ⟨-, hw⟩, hpath, rfl⟩
          rw [← hw, Walk.outlook, hpath, Walk.unwind, Walk.placedIds, List.map_reverse]
        · intro fault h
          rcases hspec.2 fault h with ⟨w, ⟨hinv, hw⟩, id, x, p, pending, path, hpath, hstops⟩
          rw [← hw]
          exact hinv.outlook_eq_of_stops hpath hstops

/-- **The schedule is that of the recursion.**  The walk with its explicit path and the recursive
depth-first visit from the sink give the same order, or report the same error. -/
theorem schedule_eq_depthFirst (hg : g.Reachable) : g.schedule = g.depthFirst.map Schedule.mk := by
  have h := map_scheduled_eq_depthFirst hg.wellFormed.id_eq
  rw [schedule]
  cases hs : g.scheduled with
  | ok modules => rw [h.1 modules hs]; rfl
  | error fault => rw [h.2 fault hs]; rfl

/-- The demo patch with two faults: the pan has lost its input, and the second oscillator modulates
itself. -/
def demoFaulty : Graph := demo.applyAll [.disconnect ⟨2⟩, .connectParam ⟨3⟩ ⟨3⟩ "freq"]

/-- The order of the demo patch by recursion, and the fault that the recursion meets first. -/
theorem schedule_eq_depthFirst_demo :
    demo.depthFirst.map Schedule.mk = .ok ⟨[⟨1⟩, ⟨2⟩, ⟨3⟩, ⟨4⟩, .sink]⟩ ∧
    demoFaulty.depthFirst.map Schedule.mk = .error (.unconnectedInput "Pan") := by
  rw [← schedule_eq_depthFirst demo_reachable,
    ← schedule_eq_depthFirst (g := demoFaulty) (demo_reachable.applyAll _)]
  constructor
  · decide +kernel
  · decide +kernel

end Graph

end Patchbay
