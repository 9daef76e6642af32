import Patchbay.Proofs.WellFormed
import Patchbay.Schedule.Walk
import Mathlib.Data.List.Nodup
import Mathlib.Logic.Relation

/-!
# The walk keeps its promises

The walk from the sink is a machine with a path and marks, and what it finds is about the graph: who
depends on whom, who is needed by the sink, and who depends on itself.  This file ties the two
together.

* `Graph.DependsOn`, `Graph.Live`, `Graph.OnCycle` — dependency, read off the slots alone.
* `Walk.Moves`, `Walk.Stops` — what one move can lead to, said once for all proofs below.
* `Walk.Trail` — the path as a chain: every frame has looked at its producers up to the frame above
  it, and all it has looked at before are placed.
* `Walk.Invariant` — **what holds before every move**, and `Walk.Invariant.step`: a move keeps it.
* `Graph.IsSchedule`, `Graph.Explains` — what an order of the walk is, and what a fault of the walk
  says about the graph; `Graph.scheduled_spec` reads both off the invariant.

Nothing here needs a graph in order, except that a module knows its own handle.
-/

namespace Patchbay

open Relation

/-! ## Dependency -/

lemma Module.mem_producers_iff {m : Module} {p : ModuleId} :
    p ∈ m.producers ↔ m.mainInput = some p ∨ ∃ param ∈ m.params, param.binding = some p := by
  simp [Module.producers, Option.mem_toList]

namespace Graph

/-- A module depends on what its slots are bound to. -/
def DependsOn (g : Graph) (consumer producer : ModuleId) : Prop :=
  ∃ m, g.get? consumer = some m ∧
    (m.mainInput = some producer ∨ ∃ param ∈ m.params, param.binding = some producer)

/-- The sink needs a module if it depends on it, directly or through others. -/
def Live (g : Graph) (id : ModuleId) : Prop := ReflTransGen g.DependsOn .sink id

/-- A module that depends on itself, directly or through others. -/
def OnCycle (g : Graph) (id : ModuleId) : Prop := TransGen g.DependsOn id id

variable {g : Graph}

lemma dependsOn_iff {id p : ModuleId} {m : Module} (hm : g.get? id = some m) :
    g.DependsOn id p ↔ p ∈ m.producers := by
  rw [Module.mem_producers_iff]
  constructor
  · rintro ⟨m', hm', hp⟩
    cases hm.symm.trans hm'
    exact hp
  · intro hp
    exact ⟨m, hm, hp⟩

lemma Live.sink : g.Live .sink := ReflTransGen.refl

lemma Live.tail {id p : ModuleId} (hid : g.Live id) (hp : g.DependsOn id p) : g.Live p :=
  ReflTransGen.tail hid hp

end Graph

/-- Every module of a list comes after all its producers. -/
def ProducersFirst (modules : List Module) : Prop :=
  ∀ before m after, modules = before ++ m :: after → ∀ p ∈ m.producers, p ∈ before.map (·.id)

lemma producersFirst_nil : ProducersFirst [] := by
  intro before m after h
  simp at h

/-- A module may be put at the end once its producers are there. -/
lemma ProducersFirst.append_singleton {modules : List Module} {m : Module}
    (h : ProducersFirst modules) (hm : ∀ p ∈ m.producers, p ∈ modules.map (·.id)) :
    ProducersFirst (modules ++ [m]) := by
  intro before x after heq p hp
  rcases List.eq_nil_or_concat after with rfl | ⟨after', y, rfl⟩
  · obtain ⟨rfl, hx⟩ := List.append_inj' heq rfl
    cases hx
    exact hm p hp
  · rw [List.concat_eq_append, ← List.cons_append, ← List.append_assoc] at heq
    obtain ⟨rfl, -⟩ := List.append_inj' heq rfl
    exact h before x after' rfl p hp

/-! ## What a move can do -/

namespace Walk

variable {g : Graph}

/-- The moves after which the walk goes on. -/
inductive Moves (w : Walk g) : Walk g → Prop where
  | place {id : ModuleId} {m : Module} {path : List Frame} (hpath : w.path = ⟨id, m, []⟩ :: path) :
      Moves w ⟨w.marks.set id .placed, path, m :: w.placed⟩
  | pass {id p : ModuleId} {m : Module} {pending : List ModuleId} {path : List Frame}
      (hpath : w.path = ⟨id, m, p :: pending⟩ :: path) (hmark : w.marks.get p = some .placed) :
      Moves w ⟨w.marks, ⟨id, m, pending⟩ :: path, w.placed⟩
  | enter {id p : ModuleId} {m q : Module} {pending : List ModuleId} {path : List Frame}
      (hpath : w.path = ⟨id, m, p :: pending⟩ :: path) (hmark : w.marks.get p = none)
      (hq : g.get? p = some q) (hfed : q.isStarved = false) :
      Moves w ⟨w.marks.set p .entered, ⟨p, q, q.producers⟩ :: ⟨id, m, pending⟩ :: path, w.placed⟩

/-- The moves at which the walk fails: all of them look at a producer of the end of the path. -/
inductive Stops (w : Walk g) (m : Module) (p : ModuleId) : WalkFault → Prop where
  | missing (hp : g.get? p = none) : Stops w m p (.notMember p)
  | starved {q : Module} (hq : g.get? p = some q) (hstarved : q.isStarved = true) :
      Stops w m p (.unconnected q.name)
  | met {q : Module} (hq : g.get? p = some q) (hmark : w.marks.get p = some .entered) :
      Stops w m p (.cycle p q.name)

lemma moves_of_step {w v : Walk g} (h : w.step = .next v) : w.Moves v := by
  unfold step at h
  split at h
  · cases h
  · rename_i id m path hpath
    cases h
    exact .place hpath
  · rename_i id m p pending path hpath
    split at h
    · rename_i hmark
      cases h
      exact .pass hpath hmark
    · unfold meet at h
      split at h <;> cases h
    · rename_i hmark
      unfold Walk.enter at h
      split at h
      · cases h
      · rename_i q hq
        split_ifs at h with hstarved
        cases h
        exact .enter hpath hmark hq (by simpa using hstarved)

lemma stops_of_step {w : Walk g} {fault : WalkFault} (h : w.step = .stuck fault) :
    ∃ id m p pending path, w.path = ⟨id, m, p :: pending⟩ :: path ∧ w.Stops m p fault := by
  unfold step at h
  split at h
  · cases h
  · cases h
  · rename_i id m p pending path hpath
    refine ⟨id, m, p, pending, path, hpath, ?_⟩
    split at h
    · cases h
    · rename_i hmark
      unfold meet at h
      split at h
      · rename_i hp
        cases h
        exact .missing hp
      · rename_i q hq
        cases h
        exact .met hq hmark
    · unfold Walk.enter at h
      split at h
      · rename_i hp
        cases h
        exact .missing hp
      · rename_i q hq
        split_ifs at h with hstarved
        cases h
        exact .starved hq hstarved

lemma path_of_step_done {w : Walk g} {order : List Module} (h : w.step = .done order) :
    w.path = [] ∧ order = w.placed.reverse := by
  unfold step at h
  split at h
  · rename_i hpath
    cases h
    exact ⟨hpath, rfl⟩
  · cases h
  · split at h
    · cases h
    · unfold meet at h
      split at h <;> cases h
    · unfold Walk.enter at h
      split at h
      · cases h
      · split_ifs at h

/-- **The whole walk.**  What every move keeps holds where the walk ends, in success and failure. -/
theorem run_spec {P : Walk g → Prop} (step : ∀ w v, P w → w.Moves v → P v) (w : Walk g) (hw : P w) :
    (∀ order, w.run = .ok order → ∃ v, P v ∧ v.path = [] ∧ order = v.placed.reverse) ∧
    (∀ fault, w.run = .error fault → ∃ v, P v ∧
      ∃ id m p pending path, v.path = ⟨id, m, p :: pending⟩ :: path ∧ v.Stops m p fault) := by
  induction hn : w.remaining using Nat.strongRecOn generalizing w with
  | _ n ih =>
      rw [run]
      split
      · rename_i v hstep
        refine ih v.remaining ?_ v (step w v hw (moves_of_step hstep)) rfl
        rw [← hn]
        exact remaining_lt_of_step hstep
      · rename_i order hstep
        constructor
        · intro order' h
          cases h
          exact ⟨w, hw, path_of_step_done hstep⟩
        · intro fault h
          cases h
      · rename_i fault hstep
        constructor
        · intro order h
          cases h
        · intro fault' h
          cases h
          exact ⟨w, hw, stops_of_step hstep⟩

/-! ## The path -/

/-- **The path is a trail of unfinished business.**  Every frame stands for a module that is fed; it
has looked at its producers up to `child`, the frame above it, and those before that are `done`. -/
def Trail (g : Graph) (done : List ModuleId) : Option ModuleId → List Frame → Prop
  | _, [] => True
  | child, f :: path =>
      (g.get? f.id = some f.entry ∧ f.entry.isStarved = false) ∧
      (∃ seen, f.entry.producers = seen ++ child.toList ++ f.pending ∧ ∀ p ∈ seen, p ∈ done) ∧
      Trail g done (some f.id) path

lemma Trail.mono {done done' : List ModuleId} (h : ∀ p ∈ done, p ∈ done') :
    ∀ {child : Option ModuleId} {path : List Frame}, Trail g done child path →
      Trail g done' child path
  | _, [], _ => trivial
  | _, _ :: _, ⟨hf, ⟨seen, hseen, hdone⟩, hpath⟩ =>
      ⟨hf, ⟨seen, hseen, fun p hp => h p (hdone p hp)⟩, hpath.mono h⟩

/-- Once the frame above is done, the end of the trail goes on behind it. -/
lemma Trail.resume {done : List ModuleId} {child : ModuleId} (hchild : child ∈ done) :
    ∀ {path : List Frame}, Trail g done (some child) path → Trail g done none path
  | [], _ => trivial
  | f :: path, ⟨hf, ⟨seen, hseen, hdone⟩, hpath⟩ => by
      refine ⟨hf, ⟨seen ++ [child], by simpa using hseen, ?_⟩, hpath⟩
      intro p hp
      rcases List.mem_append.mp hp with hp | hp
      · exact hdone p hp
      · rw [List.mem_singleton.mp hp]
        exact hchild

/-- Everything on the path depends on what stands above it. -/
lemma Trail.transGen {done : List ModuleId} :
    ∀ {child : ModuleId} {path : List Frame}, Trail g done (some child) path →
      ∀ id ∈ path.map (·.id), TransGen g.DependsOn id child
  | _, [], _, id, hid => by simp at hid
  | child, f :: path, ⟨⟨hget, _⟩, ⟨seen, hseen, _⟩, hpath⟩, id, hid => by
      have hdep : g.DependsOn f.id child := (Graph.dependsOn_iff hget).mpr (by simp [hseen])
      rw [List.map_cons, List.mem_cons] at hid
      rcases hid with rfl | hid
      · exact TransGen.single hdep
      · exact (hpath.transGen id hid).tail hdep

/-! ## The invariant -/

/-- **What holds before every move of the walk.**  The marks agree with the path and with what is
placed, only what the sink needs is marked, what is placed comes after its producers, and the path
begins at the sink until the sink itself is placed, last of all. -/
structure Invariant (w : Walk g) : Prop where
  entered : ∀ id, w.marks.get id = some .entered ↔ id ∈ w.path.map (·.id)
  placed : ∀ id, w.marks.get id = some .placed ↔ id ∈ w.placed.map (·.id)
  live : ∀ id, w.marks.get id ≠ none → g.Live id
  member : ∀ m ∈ w.placed, g.get? m.id = some m ∧ m.isStarved = false
  trail : Trail g (w.placed.map (·.id)) none w.path
  pathNodup : (w.path.map (·.id)).Nodup
  placedNodup : (w.placed.map (·.id)).Nodup
  order : ProducersFirst w.placed.reverse
  bottom : (w.path = [] ∧ w.placed.head?.map (·.id) = some .sink) ∨
    (w.path.map (·.id)).getLast? = some .sink

lemma get_set_of_get? {id : ModuleId} {m : Module} (hm : g.get? id = some m) (marks : Marks g)
    (mark : Mark) (other : ModuleId) :
    (marks.set id mark).get other = if id = other then some mark else marks.get other := by
  rw [Marks.get_set]
  simp [index_lt_of_get? hm]

lemma Invariant.place (hid : ∀ id m, g.get? id = some m → m.id = id) {w : Walk g}
    (hw : w.Invariant) {id : ModuleId} {m : Module} {path : List Frame}
    (hpath : w.path = ⟨id, m, []⟩ :: path) :
    Invariant ⟨w.marks.set id .placed, path, m :: w.placed⟩ := by
  have htrail := hw.trail
  rw [hpath] at htrail
  obtain ⟨⟨hget, hfed⟩, ⟨seen, hseen, hdone⟩, hrest⟩ := htrail
  have hentered := hw.entered id
  have hnodup := hw.pathNodup
  rw [hpath, List.map_cons] at hentered
  rw [hpath, List.map_cons, List.nodup_cons] at hnodup
  have hmark : w.marks.get id = some .entered := hentered.mpr (List.mem_cons_self ..)
  have hmid : m.id = id := hid id m hget
  refine ⟨?_, ?_, ?_, ?_, ?_, hnodup.2, ?_, ?_, ?_⟩
  · intro other
    have hold := hw.entered other
    rw [hpath, List.map_cons, List.mem_cons] at hold
    rw [get_set_of_get? hget]
    split_ifs with h
    · subst h
      simpa using hnodup.1
    · rw [hold]
      simp [Ne.symm h]
  · intro other
    rw [get_set_of_get? hget, List.map_cons, List.mem_cons, hmid]
    split_ifs with h
    · exact iff_of_true rfl (Or.inl h.symm)
    · rw [hw.placed other]
      simp [Ne.symm h]
  · intro other hother
    rw [get_set_of_get? hget] at hother
    split_ifs at hother with h
    · exact h ▸ hw.live id (by simp [hmark])
    · exact hw.live other hother
  · intro x hx
    rcases List.mem_cons.mp hx with rfl | hx
    · exact ⟨hmid ▸ hget, hfed⟩
    · exact hw.member x hx
  · have hplaced : id ∈ (m :: w.placed).map (·.id) := by simp [hmid]
    exact Trail.resume hplaced (hrest.mono fun p hp => List.mem_cons_of_mem _ hp)
  · rw [List.map_cons, List.nodup_cons, hmid, ← hw.placed id, hmark]
    exact ⟨by simp, hw.placedNodup⟩
  · rw [List.reverse_cons]
    refine hw.order.append_singleton ?_
    intro p hp
    have hp' : p ∈ seen := by simpa [hseen] using hp
    simpa using hdone p hp'
  · rcases hw.bottom with ⟨hnil, -⟩ | hlast
    · simp [hpath] at hnil
    · rw [hpath, List.map_cons] at hlast
      cases path with
      | nil => exact Or.inl ⟨rfl, by simpa [hmid] using hlast⟩
      | cons f path => exact Or.inr (by simpa using hlast)

lemma Invariant.pass {w : Walk g} (hw : w.Invariant) {id p : ModuleId} {m : Module}
    {pending : List ModuleId} {path : List Frame} (hpath : w.path = ⟨id, m, p :: pending⟩ :: path)
    (hmark : w.marks.get p = some .placed) :
    Invariant ⟨w.marks, ⟨id, m, pending⟩ :: path, w.placed⟩ := by
  have htrail := hw.trail
  have hids : w.path.map (·.id) = (⟨id, m, pending⟩ :: path : List Frame).map (·.id) := by
    rw [hpath]
    rfl
  rw [hpath] at htrail
  obtain ⟨hf, ⟨seen, hseen, hdone⟩, hrest⟩ := htrail
  refine ⟨?_, hw.placed, hw.live, hw.member, ⟨hf, ⟨seen ++ [p], ?_, ?_⟩, hrest⟩, ?_,
    hw.placedNodup, hw.order, ?_⟩
  · intro other
    rw [← hids]
    exact hw.entered other
  · simpa using hseen
  · intro x hx
    rcases List.mem_append.mp hx with hx | hx
    · exact hdone x hx
    · rw [List.mem_singleton.mp hx]
      exact (hw.placed p).mp hmark
  · rw [← hids]
    exact hw.pathNodup
  · rcases hw.bottom with ⟨hnil, -⟩ | hlast
    · simp [hpath] at hnil
    · exact Or.inr (hids ▸ hlast)

lemma Invariant.enter {w : Walk g} (hw : w.Invariant) {id p : ModuleId} {m q : Module}
    {pending : List ModuleId} {path : List Frame} (hpath : w.path = ⟨id, m, p :: pending⟩ :: path)
    (hmark : w.marks.get p = none) (hq : g.get? p = some q) (hfed : q.isStarved = false) :
    Invariant ⟨w.marks.set p .entered, ⟨p, q, q.producers⟩ :: ⟨id, m, pending⟩ :: path,
      w.placed⟩ := by
  have htrail := hw.trail
  have hids : w.path.map (·.id) = (⟨id, m, pending⟩ :: path : List Frame).map (·.id) := by
    rw [hpath]
    rfl
  rw [hpath] at htrail
  obtain ⟨⟨hget, hmfed⟩, ⟨seen, hseen, hdone⟩, hrest⟩ := htrail
  have hnew : p ∉ w.path.map (·.id) := by
    rw [← hw.entered p, hmark]
    simp
  refine ⟨?_, ?_, ?_, hw.member, ⟨⟨hq, hfed⟩, ⟨[], rfl, by simp⟩, ⟨hget, hmfed⟩, ⟨seen, ?_, hdone⟩,
    hrest⟩, ?_, hw.placedNodup, hw.order, ?_⟩
  · intro other
    rw [get_set_of_get? hq, List.map_cons, ← hids, List.mem_cons]
    split_ifs with h
    · simp [h]
    · rw [hw.entered other]
      simp [Ne.symm h]
  · intro other
    rw [get_set_of_get? hq]
    split_ifs with h
    · subst h
      rw [← hw.placed p, hmark]
      simp
    · exact hw.placed other
  · intro other hother
    rw [get_set_of_get? hq] at hother
    split_ifs at hother with h
    · subst h
      have hlive : g.Live id := hw.live id (by rw [(hw.entered id).mpr (by simp [hpath])]; simp)
      exact hlive.tail ((Graph.dependsOn_iff hget).mpr (by simp [hseen]))
    · exact hw.live other hother
  · simpa using hseen
  · rw [List.map_cons, ← hids, List.nodup_cons]
    exact ⟨hnew, hw.pathNodup⟩
  · rcases hw.bottom with ⟨hnil, -⟩ | hlast
    · simp [hpath] at hnil
    · refine Or.inr ?_
      rw [List.map_cons, ← hids, List.getLast?_cons, hlast]
      rfl

/-- **A move keeps the invariant.** -/
theorem Invariant.step (hid : ∀ id m, g.get? id = some m → m.id = id) {w v : Walk g}
    (hw : w.Invariant) (h : w.Moves v) : v.Invariant := by
  cases h with
  | place hpath => exact hw.place hid hpath
  | pass hpath hmark => exact hw.pass hpath hmark
  | enter hpath hmark hq hfed => exact hw.enter hpath hmark hq hfed

lemma invariant_start {m : Module} (hm : g.get? .sink = some m) (hfed : m.isStarved = false) :
    Invariant (g := g) ⟨(Marks.none g).set .sink .entered, [⟨.sink, m, m.producers⟩], []⟩ := by
  have hget : ∀ id, ((Marks.none g).set .sink .entered).get id =
      if ModuleId.sink = id then some .entered else none := by
    intro id
    rw [get_set_of_get? hm, Marks.get_none]
  refine ⟨?_, ?_, ?_, by simp, ⟨⟨hm, hfed⟩, ⟨[], rfl, by simp⟩, trivial⟩, by simp, by simp,
    producersFirst_nil, Or.inr rfl⟩
  · intro id
    simp [hget, eq_comm]
  · intro id
    rw [hget]
    split_ifs <;> simp
  · intro id hmark
    rw [hget] at hmark
    split_ifs at hmark with h
    · exact h ▸ .sink
    · exact absurd rfl hmark

end Walk

/-! ## The results of the walk -/

namespace Graph

variable {g : Graph}

/-- **A schedule of a graph**: exactly what the sink needs, each module once and after its
producers, the sink last, and nobody without the input it takes. -/
structure IsSchedule (g : Graph) (modules : List Module) : Prop where
  member : ∀ m ∈ modules, g.get? m.id = some m
  fed : ∀ m ∈ modules, m.isStarved = false
  live_iff : ∀ id, id ∈ modules.map (·.id) ↔ g.Live id
  nodup : (modules.map (·.id)).Nodup
  producersFirst : ProducersFirst modules
  last : (modules.map (·.id)).getLast? = some .sink

/-- Where everything comes after its producers, whatever a member needs is a member. -/
lemma mem_of_producersFirst {modules : List Module} (hfirst : ProducersFirst modules)
    (hmember : ∀ m ∈ modules, g.get? m.id = some m) {a b : ModuleId}
    (ha : a ∈ modules.map (·.id)) (hab : g.DependsOn a b) : b ∈ modules.map (·.id) := by
  obtain ⟨m, hm, rfl⟩ := List.mem_map.mp ha
  obtain ⟨before, after, rfl⟩ := List.append_of_mem hm
  have hb := hfirst before m after rfl b ((dependsOn_iff (hmember m hm)).mp hab)
  simp only [List.map_append, List.mem_append]
  exact Or.inl hb

end Graph

lemma Walk.Invariant.isSchedule {g : Graph} {w : Walk g} (hw : w.Invariant)
    (hpath : w.path = []) : g.IsSchedule w.placed.reverse := by
  have hids : w.placed.reverse.map (·.id) = (w.placed.map (·.id)).reverse := List.map_reverse
  have hmember : ∀ m ∈ w.placed.reverse, g.get? m.id = some m := by
    intro m hm
    exact (hw.member m (List.mem_reverse.mp hm)).1
  have hlast : w.placed.head?.map (·.id) = some .sink := by
    rcases hw.bottom with ⟨-, hhead⟩ | hlast
    · exact hhead
    · simp [hpath] at hlast
  have hsink : ModuleId.sink ∈ w.placed.reverse.map (·.id) := by
    obtain ⟨m, hm, hid⟩ := Option.map_eq_some_iff.mp hlast
    rw [hids, List.mem_reverse, ← hid]
    exact List.mem_map_of_mem (List.mem_of_mem_head? hm)
  refine ⟨hmember, ?_, ?_, ?_, hw.order, ?_⟩
  · intro m hm
    exact (hw.member m (List.mem_reverse.mp hm)).2
  · intro id
    constructor
    · intro hid
      rw [hids, List.mem_reverse] at hid
      exact hw.live id (by rw [(hw.placed id).mpr hid]; simp)
    · intro hlive
      -- the placed modules hold the sink and are closed under dependency
      induction hlive with
      | refl => exact hsink
      | tail _ hdep ih => exact Graph.mem_of_producersFirst hw.order hmember ih hdep
  · rw [hids, List.nodup_reverse]
    exact hw.placedNodup
  · rw [hids, List.getLast?_reverse, List.head?_map]
    exact hlast

namespace Graph

variable {g : Graph}

/-- What has to be wrong with a graph for the walk to fail. -/
def Explains (g : Graph) : WalkFault → Prop
  | .notMember id => g.Live id ∧ g.get? id = none
  | .unconnected name =>
      ∃ id m, g.Live id ∧ g.get? id = some m ∧ m.isStarved = true ∧ m.name = name
  | .cycle id name => g.Live id ∧ g.OnCycle id ∧ ∃ m, g.get? id = some m ∧ m.name = name

end Graph

/-- The walk fails only for a reason that lies in the graph. -/
lemma Walk.Invariant.explains {g : Graph} {w : Walk g} (hw : w.Invariant) {id p : ModuleId}
    {m : Module} {pending : List ModuleId} {path : List Frame} {fault : WalkFault}
    (hpath : w.path = ⟨id, m, p :: pending⟩ :: path) (hstops : w.Stops m p fault) :
    g.Explains fault := by
  have htrail := hw.trail
  rw [hpath] at htrail
  obtain ⟨⟨hget, -⟩, ⟨seen, hseen, -⟩, hrest⟩ := htrail
  have hdep : g.DependsOn id p := (Graph.dependsOn_iff hget).mpr (by simp [hseen])
  have hlive : g.Live p := by
    have hid : g.Live id := hw.live id (by rw [(hw.entered id).mpr (by simp [hpath])]; simp)
    exact hid.tail hdep
  cases hstops with
  | missing hp => exact ⟨hlive, hp⟩
  | starved hq hstarved => exact ⟨p, _, hlive, hq, hstarved, rfl⟩
  | met hq hmark =>
      refine ⟨hlive, ?_, _, hq, rfl⟩
      -- the producer is the end of the path itself, or the end of the path is above it
      have hon := (hw.entered p).mp hmark
      rw [hpath, List.map_cons, List.mem_cons] at hon
      rcases hon with rfl | hon
      · exact TransGen.single hdep
      · exact (hrest.transGen p hon).tail hdep

namespace Graph

variable {g : Graph}

/-- **The walk is right in both of its answers.**  An order that it finds is a schedule, and a fault
that it reports lies in the graph. -/
theorem scheduled_spec (hid : ∀ id m, g.get? id = some m → m.id = id) :
    (∀ modules, g.scheduled = .ok modules → g.IsSchedule modules) ∧
    (∀ fault, g.scheduled = .error fault → g.Explains fault) := by
  rw [scheduled, Walk.enter]
  cases hsink : g.get? .sink with
  | none =>
      constructor
      · intro modules h
        cases h
      · intro fault h
        cases h
        exact ⟨.sink, hsink⟩
  | some m =>
      by_cases hstarved : m.isStarved = true
      · simp only [hstarved, if_true]
        constructor
        · intro modules h
          cases h
        · intro fault h
          cases h
          exact ⟨.sink, m, .sink, hsink, hstarved, rfl⟩
      · simp only [hstarved]
        have hstart := Walk.invariant_start hsink (by simpa using hstarved)
        obtain ⟨hok, herror⟩ := Walk.run_spec (fun w v hw hmoves => hw.step hid hmoves) _ hstart
        constructor
        · intro modules h
          obtain ⟨v, hv, hpath, rfl⟩ := hok modules h
          exact hv.isSchedule hpath
        · intro fault h
          obtain ⟨v, hv, id, x, p, pending, path, hpath, hstops⟩ := herror fault h
          exact hv.explains hpath hstops

end Graph

end Patchbay
