import Patchbay.Proofs.WalkInvariant
import Patchbay.Patch

/-!
# Schedules, and when a graph compiles

What the walk finds is read here as a schedule, with places and predecessors, and the two sides of
compiling are put together: the graph compiles exactly if nothing the sink needs lacks its input or
feeds back into itself, and an error names a module with one of these faults.

* `Schedule.position?_eq_some_iff` — in an order without repetitions the place is the inverse of the
  order, and `Schedule.lookup_positions`: the table of places has it.
* `Graph.IsSchedule.position?_lt` — producers have smaller places, hence
  `Graph.IsSchedule.not_onCycle`: nothing that runs feeds back into itself.
* `Graph.schedule_spec` — **the schedule of a graph.**
* `Graph.exists_compile_iff`, `Graph.compile_error_explained` — **when a graph has a patch, and what
  the error says if it has none.**
-/

namespace Patchbay

/-! ## Places -/

namespace Schedule

variable {s : Schedule} {id : ModuleId} {k : Nat}

/-- Without repetitions the place of a module is where the order has it. -/
lemma position?_eq_some_iff (hs : s.order.Nodup) :
    s.position? id = some k ↔ s.order[k]? = some id := by
  rw [position?, List.idxOf?_eq_some_iff, List.getElem?_eq_some_iff]
  constructor
  · rintro ⟨hk, hid, -⟩
    exact ⟨hk, hid⟩
  · rintro ⟨hk, hid⟩
    refine ⟨hk, hid, fun j hj hjid => ?_⟩
    have hjk : j = k := (hs.getElem_inj_iff).mp (hjid.trans hid.symm)
    omega

/-- In a table that is made from the last entry to the first, what comes once is found where it
is. -/
lemma lookup_reverse_zipIdx {order : List ModuleId} (hnodup : order.Nodup) (id : ModuleId)
    (start : Nat) :
    (order.zipIdx start).reverse.lookup id = (order.idxOf? id).map (start + ·) := by
  induction order generalizing start with
  | nil => rfl
  | cons first rest ih =>
      rw [List.nodup_cons] at hnodup
      rw [List.zipIdx_cons, List.reverse_cons, List.lookup_append, ih hnodup.2, List.idxOf?_cons]
      by_cases hid : id = first
      · subst hid
        rw [List.idxOf?_eq_none_iff.mpr hnodup.1]
        simp
      · have hfirst : (first == id) = false := by simpa using Ne.symm hid
        have hlast : (id == first) = false := by simpa using hid
        cases rest.idxOf? id with
        | none => simp [hfirst, hlast, List.lookup_cons]
        | some k => simp [hfirst, Nat.add_left_comm, Nat.add_comm]

/-- **Without repetitions the table has the place of every module.** -/
lemma lookup_positions (hs : s.order.Nodup) (id : ModuleId) :
    s.positions.lookup id = s.position? id := by
  rw [positions, position?, lookup_reverse_zipIdx hs id 0]
  cases s.order.idxOf? id with
  | none => rfl
  | some k => simp

/-- A place lies inside the order. -/
lemma lt_of_position? (h : s.position? id = some k) : k < s.order.length :=
  (List.idxOf?_eq_some_iff.mp h).1

lemma position?_eq_none_iff : s.position? id = none ↔ id ∉ s.order := List.idxOf?_eq_none_iff

lemma predecessor?_of_position? {j : Nat} (h : s.position? id = some (j + 1)) :
    s.predecessor? id = s.order[j]? := by
  rw [predecessor?, h]

lemma predecessor?_of_first (h : s.position? id = some 0) : s.predecessor? id = none := by
  rw [predecessor?, h]

end Schedule

/-! ## Schedules of a graph -/

namespace Graph

variable {g : Graph} {modules : List Module}

/-- Producers have smaller places. -/
lemma IsSchedule.position?_lt (hs : g.IsSchedule modules) {a b : ModuleId} (ha : g.Live a)
    (hab : g.DependsOn a b) :
    ∃ j k, (Schedule.ofModules modules).position? b = some j ∧
      (Schedule.ofModules modules).position? a = some k ∧ j < k := by
  obtain ⟨m, hm, rfl⟩ := List.mem_map.mp ((hs.live_iff a).mpr ha)
  have hb := (dependsOn_iff (hs.member m hm)).mp hab
  have hnodup : (Schedule.ofModules modules).order.Nodup := hs.nodup
  obtain ⟨before, after, hsplit⟩ := List.append_of_mem hm
  obtain ⟨j, hj⟩ := List.mem_iff_getElem?.mp (hs.producersFirst before m after hsplit b hb)
  have hlt : j < before.length := by
    have := (List.getElem?_eq_some_iff.mp hj).1
    simpa using this
  refine ⟨j, before.length, ?_, ?_, hlt⟩
  · rw [Schedule.position?_eq_some_iff hnodup, Schedule.ofModules, hsplit, List.map_append,
      List.getElem?_append_left (by simpa using hlt)]
    exact hj
  · rw [Schedule.position?_eq_some_iff hnodup, Schedule.ofModules, hsplit, List.map_append,
      List.getElem?_append_right (by simp)]
    simp

/-- **Nothing that runs feeds back into itself**: along a dependency the place gets smaller. -/
lemma IsSchedule.not_onCycle (hs : g.IsSchedule modules) {id : ModuleId} (hid : g.Live id) :
    ¬ g.OnCycle id := by
  have hdown : ∀ b, Relation.TransGen g.DependsOn id b →
      ∃ j k, (Schedule.ofModules modules).position? b = some j ∧
        (Schedule.ofModules modules).position? id = some k ∧ j < k := by
    intro b hb
    induction hb with
    | single hdep => exact hs.position?_lt hid hdep
    | tail hprefix hdep ih =>
        obtain ⟨j, k, hj, hk, hlt⟩ := ih
        have hlive := hid.trans hprefix.to_reflTransGen
        obtain ⟨i, j', hi, hj', hlt'⟩ := hs.position?_lt hlive hdep
        cases hj.symm.trans hj'
        exact ⟨i, k, hi, hk, by omega⟩
  intro hcycle
  obtain ⟨j, k, hj, hk, hlt⟩ := hdown id hcycle
  cases hj.symm.trans hk
  exact Nat.lt_irrefl _ hlt

lemma schedule_eq_ok_iff {s : Schedule} :
    g.schedule = .ok s ↔ ∃ modules, g.scheduled = .ok modules ∧ s = .ofModules modules := by
  rw [schedule]
  cases g.scheduled <;> simp [eq_comm]

lemma compile_eq_ok_iff {patch : Patch} :
    g.compile = .ok patch ↔ ∃ modules, g.scheduled = .ok modules ∧ patch = .ofModules modules := by
  rw [compile]
  cases g.scheduled <;> simp [eq_comm]

lemma compile_eq_error_iff {e : GraphError} :
    g.compile = .error e ↔ ∃ fault, g.scheduled = .error fault ∧ e = fault.toError := by
  rw [compile]
  cases g.scheduled <;> simp [eq_comm]

/-- **The schedule of a graph.**  It holds exactly what the sink needs, each module once and after
all the producers of its slots, the sink last; the place of a module is the inverse of the order,
and the predecessor is what stands one place before. -/
theorem schedule_spec (hg : g.Reachable) {s : Schedule} (hs : g.schedule = .ok s) :
    (∀ id, id ∈ s.order ↔ g.Live id) ∧ s.order.Nodup ∧
    (∀ id p, id ∈ s.order → g.DependsOn id p →
      ∃ j k : Nat, s.order[j]? = some p ∧ s.order[k]? = some id ∧ j < k) ∧
    s.order.getLast? = some .sink ∧
    (∀ k id, s.order[k]? = some id → s.position? id = some k) ∧
    (∀ id, id ∉ s.order → s.position? id = none) ∧
    (∀ k id next, s.order[k]? = some id → s.order[k + 1]? = some next →
      s.predecessor? next = some id) ∧
    (∀ id, s.order[0]? = some id → s.predecessor? id = none) := by
  obtain ⟨modules, hmodules, rfl⟩ := schedule_eq_ok_iff.mp hs
  have hsched := (scheduled_spec hg.wellFormed.id_eq).1 modules hmodules
  have hnodup : (Schedule.ofModules modules).order.Nodup := hsched.nodup
  refine ⟨hsched.live_iff, hnodup, ?_, hsched.last, ?_, ?_, ?_, ?_⟩
  · intro id p hid hdep
    obtain ⟨j, k, hj, hk, hlt⟩ := hsched.position?_lt ((hsched.live_iff id).mp hid) hdep
    exact ⟨j, k, (Schedule.position?_eq_some_iff hnodup).mp hj,
      (Schedule.position?_eq_some_iff hnodup).mp hk, hlt⟩
  · intro k id hk
    exact (Schedule.position?_eq_some_iff hnodup).mpr hk
  · intro id hid
    exact Schedule.position?_eq_none_iff.mpr hid
  · intro k id next hid hnext
    have hplace := (Schedule.position?_eq_some_iff hnodup).mpr hnext
    rw [Schedule.predecessor?_of_position? hplace, hid]
  · intro id hid
    exact Schedule.predecessor?_of_first ((Schedule.position?_eq_some_iff hnodup).mpr hid)

/-- The schedule of the demo patch: the second oscillator runs between the pan and its consumer. -/
theorem schedule_spec_demo :
    demo.schedule = .ok ⟨[⟨1⟩, ⟨2⟩, ⟨3⟩, ⟨4⟩, .sink]⟩ ∧
    ∀ id, id ∈ [⟨1⟩, ⟨2⟩, ⟨3⟩, ⟨4⟩, ModuleId.sink] ↔ demo.Live id := by
  have hs : demo.schedule = .ok ⟨[⟨1⟩, ⟨2⟩, ⟨3⟩, ⟨4⟩, .sink]⟩ := by decide +kernel
  exact ⟨hs, (schedule_spec demo_reachable hs).1⟩

/-! ## When a graph compiles -/

lemma isStarved_iff {m : Module} :
    m.isStarved = true ↔ 0 < m.inChannels ∧ m.mainInput = none := by
  simp [Module.isStarved, UInt8.pos_iff_ne_zero]

/-- What the sink needs is there. -/
lemma WellFormed.exists_of_live (hg : g.WellFormed) {id : ModuleId} (hid : g.Live id) :
    ∃ m, g.get? id = some m := by
  induction hid with
  | refl =>
      obtain ⟨m, hm, -⟩ := hg.sink
      exact ⟨m, hm⟩
  | tail _ hdep _ =>
      obtain ⟨m, hm, hp⟩ := hdep
      obtain ⟨q, hq, -⟩ := hg.exists_of_mem_producers hm (Module.mem_producers_iff.mpr hp)
      exact ⟨q, hq⟩

/-- An error of compiling is a missing input or a cycle among what the sink needs. -/
lemma compile_error_explained (hg : g.WellFormed) {e : GraphError} (he : g.compile = .error e) :
    (∃ id m, e = .cycle m.name ∧ g.Live id ∧ g.get? id = some m ∧ g.OnCycle id) ∨
    (∃ id m, e = .unconnectedInput m.name ∧ g.Live id ∧ g.get? id = some m ∧
      0 < m.inChannels ∧ m.mainInput = none) := by
  obtain ⟨fault, hfault, rfl⟩ := compile_eq_error_iff.mp he
  have hwhy := (scheduled_spec hg.id_eq).2 fault hfault
  cases fault with
  | notMember id =>
      -- every slot of a graph in order is bound to a module
      obtain ⟨hlive, hnone⟩ := hwhy
      obtain ⟨m, hm⟩ := hg.exists_of_live hlive
      simp [hnone] at hm
  | unconnected name =>
      obtain ⟨id, m, hlive, hm, hstarved, rfl⟩ := hwhy
      obtain ⟨hin, hfree⟩ := isStarved_iff.mp hstarved
      exact Or.inr ⟨id, m, rfl, hlive, hm, hin, hfree⟩
  | cycle id name =>
      obtain ⟨hlive, hcycle, m, hm, rfl⟩ := hwhy
      exact Or.inl ⟨id, m, rfl, hlive, hm, hcycle⟩

/-- **When a graph has a patch**: everything that the sink needs has the main input it takes, and
nothing that the sink needs feeds back into itself. -/
theorem exists_compile_iff (hg : g.WellFormed) :
    (∃ patch, g.compile = .ok patch) ↔
      (∀ id m, g.Live id → g.get? id = some m → 0 < m.inChannels → ∃ p, m.mainInput = some p) ∧
      (∀ id, g.Live id → ¬ g.OnCycle id) := by
  constructor
  · rintro ⟨patch, hpatch⟩
    obtain ⟨modules, hmodules, -⟩ := compile_eq_ok_iff.mp hpatch
    have hsched := (scheduled_spec hg.id_eq).1 modules hmodules
    refine ⟨?_, fun id hid => hsched.not_onCycle hid⟩
    intro id m hlive hm hin
    obtain ⟨m', hm', rfl⟩ := List.mem_map.mp ((hsched.live_iff id).mpr hlive)
    cases hm.symm.trans (hsched.member m' hm')
    cases hinput : m.mainInput with
    | some p => exact ⟨p, rfl⟩
    | none =>
        have hfed := hsched.fed m hm'
        rw [isStarved_iff.mpr ⟨hin, hinput⟩] at hfed
        cases hfed
  · rintro ⟨hfed, hacyclic⟩
    cases hcompile : g.compile with
    | ok patch => exact ⟨patch, rfl⟩
    | error e =>
        exfalso
        rcases compile_error_explained hg hcompile with
          ⟨id, m, -, hlive, -, hcycle⟩ | ⟨id, m, -, hlive, hm, hin, hfree⟩
        · exact hacyclic id hlive hcycle
        · obtain ⟨p, hp⟩ := hfed id m hlive hm hin
          simp [hfree] at hp

/-- The demo patch with its first oscillator modulating itself, which it must not. -/
def demoLoop : Graph := demo.applyAll [.connectParam ⟨1⟩ ⟨1⟩ "freq"]

lemma demoLoop_reachable : demoLoop.Reachable := demo_reachable.applyAll _

end Graph

end Patchbay
