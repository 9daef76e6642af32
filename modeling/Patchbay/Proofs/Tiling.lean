import Patchbay.Proofs.Scheduling
import Mathlib.Data.List.Induction

/-!
# Where everything lies

The ranges of the modules lie end to end in the state array, in the order in which the modules run.
What is said here about a module in that order is said through the modules before it: `placements`
pairs each module with its range, and a placement in the middle of the list starts where the ones
before it end.

* `placements`, `span` — the modules with their ranges, and how many cells a stretch of them takes.
* `eq_ofModule_of_placements` — **the range of a module starts at the span of those before it.**
* `stop_le_span`, `stop_le_start` — ranges before and after a place stay on their side of it.
* `mem_readBack_iff` — which outputs are kept: those that somebody other than the next module reads.
-/

namespace Patchbay

/-! ## Placements -/

/-- The modules in the order in which they run, with their ranges. -/
def placements (modules : List Module) : List (Module × Node) :=
  modules.zip (Layout.ofModules modules).nodes

/-- How many cells a stretch of placements takes. -/
def span (placed : List (Module × Node)) : Nat := placed.foldr (·.2.count + ·) 0

@[simp] lemma span_nil : span [] = 0 := rfl

@[simp] lemma span_cons (x : Module × Node) (placed : List (Module × Node)) :
    span (x :: placed) = x.2.count + span placed := rfl

@[simp] lemma span_append (before after : List (Module × Node)) :
    span (before ++ after) = span before + span after := by
  induction before with
  | nil => simp
  | cons x before ih => simp [ih, Nat.add_assoc]

namespace Layout

lemma length_placeFrom (kept : List ModuleId) (start : Nat) (modules : List Module) :
    (placeFrom kept start modules).length = modules.length := by
  have h := congrArg List.length (map_owner_placeFrom kept start modules)
  simpa using h

/-- A range in the middle starts where the ranges before it end. -/
lemma eq_ofModule_of_zip_placeFrom (kept : List ModuleId) :
    ∀ (start : Nat) (modules : List Module) {before after : List (Module × Node)} {m : Module}
      {n : Node}, modules.zip (placeFrom kept start modules) = before ++ (m, n) :: after →
      n = Node.ofModule m (start + span before) (kept.contains m.id)
  | _, [], before, after, m, n, h => by simp at h
  | start, x :: modules, before, after, m, n, h => by
      rw [placeFrom, List.zip_cons_cons] at h
      cases before with
      | nil =>
          rw [List.nil_append, List.cons.injEq] at h
          cases h.1
          rfl
      | cons y before =>
          rw [List.cons_append, List.cons.injEq] at h
          obtain ⟨rfl, h⟩ := h
          have hn := eq_ofModule_of_zip_placeFrom kept _ modules h
          rw [span_cons, ← Nat.add_assoc]
          exact hn

end Layout

section

variable {modules : List Module}

lemma map_fst_placements (modules : List Module) : (placements modules).map (·.1) = modules := by
  rw [placements, List.map_fst_zip]
  exact Nat.le_of_eq (Layout.length_placeFrom _ _ _).symm

lemma map_snd_placements (modules : List Module) :
    (placements modules).map (·.2) = (Layout.ofModules modules).nodes := by
  rw [placements, List.map_snd_zip]
  exact Nat.le_of_eq (Layout.length_placeFrom _ _ _)

lemma map_id_placements (modules : List Module) :
    (placements modules).map (·.1.id) = modules.map (·.id) := by
  conv_rhs => rw [← map_fst_placements modules, List.map_map]
  rfl

/-- **The range of a module starts at the span of those before it.** -/
theorem eq_ofModule_of_placements {before after : List (Module × Node)} {m : Module} {n : Node}
    (h : placements modules = before ++ (m, n) :: after) :
    n = Node.ofModule m (span before) ((readBack none modules).contains m.id) := by
  have hn := Layout.eq_ofModule_of_zip_placeFrom (readBack none modules) 0 modules h
  rw [Nat.zero_add] at hn
  exact hn

/-- All of the above but the start, for a placement wherever it stands. -/
lemma eq_ofModule_of_mem {m : Module} {n : Node} (h : (m, n) ∈ placements modules) :
    n = Node.ofModule m n.start ((readBack none modules).contains m.id) := by
  obtain ⟨before, after, hsplit⟩ := List.append_of_mem h
  have hn := eq_ofModule_of_placements hsplit
  rw [hn]
  rfl

lemma owner_eq_of_mem {m : Module} {n : Node} (h : (m, n) ∈ placements modules) :
    n.owner = m.id := by
  rw [eq_ofModule_of_mem h]
  rfl

lemma size_ofModules (modules : List Module) :
    (Layout.ofModules modules).size = span (placements modules) := by
  rw [Layout.size, span, ← map_snd_placements, List.foldr_map]

lemma start_eq_span {before after : List (Module × Node)} {m : Module} {n : Node}
    (h : placements modules = before ++ (m, n) :: after) : n.start = span before := by
  rw [eq_ofModule_of_placements h]
  rfl

/-- The placements before a place, the one at it and those behind it. -/
lemma placements_split {m : Module} {n : Node} {k : Nat}
    (h : (placements modules)[k]? = some (m, n)) : placements modules =
      (placements modules).take k ++ (m, n) :: (placements modules).drop (k + 1) :=
  calc placements modules
      = (placements modules).take k ++ (placements modules).drop k :=
        (List.take_append_drop k _).symm
    _ = (placements modules).take k ++ (m, n) :: (placements modules).drop (k + 1) := by
        rw [List.drop_eq_getElem?_toList_append, h]
        rfl

/-- What stands in the first part of the placements ends within it. -/
lemma stop_le_span {before after : List (Module × Node)}
    (h : placements modules = before ++ after) {m : Module} {n : Node} (hn : (m, n) ∈ before) :
    n.stop ≤ span before := by
  rcases List.append_of_mem hn with ⟨left, right, rfl⟩
  rw [List.append_assoc, List.cons_append] at h
  have hstart := start_eq_span h
  simp only [span_append, span_cons, Node.stop]
  omega

lemma stop_le_size {m : Module} {n : Node} (h : (m, n) ∈ placements modules) :
    n.stop ≤ span (placements modules) :=
  stop_le_span (List.append_nil _).symm h

/-- What stands behind a range starts behind it. -/
lemma stop_le_start {before after : List (Module × Node)} {m m' : Module} {n n' : Node}
    (h : placements modules = before ++ (m, n) :: after) (hn : (m', n') ∈ after) :
    n.stop ≤ n'.start := by
  rcases List.append_of_mem hn with ⟨left, right, rfl⟩
  have hstart := start_eq_span h
  rw [← List.cons_append, ← List.append_assoc] at h
  have hstart' := start_eq_span h
  simp only [span_append, span_cons] at hstart'
  rw [Node.stop]
  omega

/-- Two placements of one module are the same. -/
lemma placements_inj (hnodup : (modules.map (·.id)).Nodup) {m m' : Module} {n n' : Node}
    (h : (m, n) ∈ placements modules) (h' : (m', n') ∈ placements modules) (hid : m.id = m'.id) :
    m = m' ∧ n = n' := by
  rw [← map_id_placements] at hnodup
  exact Prod.mk.inj (List.inj_on_of_nodup_map hnodup h h' hid)

/-- The layout finds the range of a module that runs. -/
lemma get?_ofModules (hnodup : (modules.map (·.id)).Nodup) {m : Module} {n : Node}
    (h : (m, n) ∈ placements modules) : (Layout.ofModules modules).get? m.id = some n := by
  have hmem : n ∈ (Layout.ofModules modules).nodes := by
    rw [← map_snd_placements]
    exact List.mem_map_of_mem h
  rw [Layout.get?]
  cases hfind : (Layout.ofModules modules).nodes.find? (·.owner = m.id) with
  | none =>
      have := List.find?_eq_none.mp hfind n hmem
      simp [owner_eq_of_mem h] at this
  | some n' =>
      have howner : n'.owner = m.id := by simpa using List.find?_some hfind
      have hn' := List.mem_of_find?_eq_some hfind
      rw [← map_snd_placements] at hn'
      obtain ⟨⟨m', n''⟩, hx, rfl⟩ := List.mem_map.mp hn'
      rw [owner_eq_of_mem hx] at howner
      rw [(placements_inj hnodup hx h howner).2]

/-- The range that the layout has for a module that runs is its placement. -/
lemma mem_placements_of_get? (hnodup : (modules.map (·.id)).Nodup) {m : Module} {n : Node}
    (hm : m ∈ modules) (h : (Layout.ofModules modules).get? m.id = some n) :
    (m, n) ∈ placements modules := by
  rw [← map_fst_placements modules] at hm
  obtain ⟨⟨m', n'⟩, hx, rfl⟩ := List.mem_map.mp hm
  cases h.symm.trans (get?_ofModules hnodup hx)
  exact hx

end

/-! ## Outputs that are kept -/

/-- The module that runs just before, after a stretch of modules. -/
def lastId (previous : Option ModuleId) (modules : List Module) : Option ModuleId :=
  (modules.getLast?.map (·.id)).or previous

lemma lastId_cons (previous : Option ModuleId) (m : Module) (modules : List Module) :
    lastId previous (m :: modules) = lastId (some m.id) modules := by
  rw [lastId, lastId, List.getLast?_cons]
  cases modules.getLast? <;> rfl

/-! Places and predecessors, for an order in which some modules have run. -/

namespace Schedule

variable {modules done rest : List Module} {m : Module} {p : ModuleId} {k : Nat}

/-- In the middle of the order, the place of a module is the number of those that have run. -/
lemma position?_of_split (hnodup : (ofModules modules).order.Nodup)
    (hsplit : modules = done ++ m :: rest) :
    (ofModules modules).position? m.id = some done.length := by
  rw [position?_eq_some_iff hnodup]
  simp [ofModules, hsplit]

/-- The place before that of a module belongs to the module that has run last. -/
lemma succ_eq_length_iff (hnodup : (ofModules modules).order.Nodup)
    (hsplit : modules = done ++ rest) (hk : (ofModules modules).position? p = some k) :
    k + 1 = done.length ↔ lastId none done = some p := by
  induction done using List.reverseRecOn with
  | nil => simp [lastId]
  | append_singleton done x _ =>
      rw [List.append_assoc, List.singleton_append] at hsplit
      have hx := position?_of_split hnodup hsplit
      simp only [lastId, List.length_append, List.length_singleton, List.getLast?_append,
        List.getLast?_singleton, Option.some_or, Option.map_some, Option.some.injEq,
        Nat.add_right_cancel_iff]
      constructor
      · rintro rfl
        have hp := (position?_eq_some_iff hnodup).mp hk
        exact Option.some.inj (((position?_eq_some_iff hnodup).mp hx).symm.trans hp)
      · rintro rfl
        exact Option.some.inj (hk.symm.trans hx)

lemma predecessor?_of_split (hnodup : (ofModules modules).order.Nodup)
    (hsplit : modules = done ++ m :: rest) :
    (ofModules modules).predecessor? m.id = lastId none done := by
  have hm := position?_of_split hnodup hsplit
  induction done using List.reverseRecOn with
  | nil => exact predecessor?_of_first hm
  | append_singleton done x _ =>
      rw [List.length_append, List.length_singleton] at hm
      rw [predecessor?_of_position? hm]
      simp [ofModules, hsplit, lastId]

end Schedule

/-- **Which outputs are kept**: those of the producers that some module reads without running right
after them. -/
lemma mem_readBack_iff {p : ModuleId} :
    ∀ {previous : Option ModuleId} {modules : List Module}, p ∈ readBack previous modules ↔
      ∃ before m after, modules = before ++ m :: after ∧ p ∈ m.producers ∧
        lastId previous before ≠ some p
  | previous, [] => by simp [readBack]
  | previous, x :: modules => by
      rw [readBack, List.mem_append, List.mem_filter, mem_readBack_iff]
      constructor
      · rintro (⟨hp, hne⟩ | ⟨before, m, after, rfl, hp, hne⟩)
        · exact ⟨[], x, modules, rfl, hp, by simpa [lastId] using hne⟩
        · exact ⟨x :: before, m, after, rfl, hp, by rw [lastId_cons]; exact hne⟩
      · rintro ⟨before, m, after, heq, hp, hne⟩
        cases before with
        | nil =>
            rw [List.nil_append, List.cons.injEq] at heq
            obtain ⟨rfl, rfl⟩ := heq
            exact Or.inl ⟨hp, by simpa [lastId] using hne⟩
        | cons y before =>
            rw [List.cons_append, List.cons.injEq] at heq
            obtain ⟨rfl, rfl⟩ := heq
            rw [lastId_cons] at hne
            exact Or.inr ⟨before, m, after, rfl, hp, hne⟩

end Patchbay
