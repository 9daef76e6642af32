import Patchbay.Proofs.DepthFirst
import Mathlib.Algebra.Ring.Nat

/-!
# How long the walk takes

The path of the walk grows and shrinks, and each of its frames moves on by itself, so that no single
number of the state says how far the walk is from its end.  This file counts the iterations of the
walk and keeps a record of the modules it enters.  All of it holds of every graph, however its slots
are bound: in cycles, to the module itself, several times to one producer, or to nothing at all.

* `Walk.Iterates`, `Walk.Ends` — the iterations of the walk, with the record of what was entered,
  and the ways in which they end.
* `Walk.Turns` — **what one iteration does**: it takes a frame off the path, or it moves a frame on.
* `Walk.Recorded` — what the record says about the state, and `Walk.Recorded.step`: an iteration
  keeps it.
* `Graph.walk_terminates` — **the walk ends within one iteration for every module and one for every
  bound slot, and enters no module twice.**
-/

namespace Patchbay

/-- How many slots of a module are bound. -/
def Module.boundSlots (m : Module) : Nat := (m.slots.filter Option.isSome).length

lemma Module.length_producers (m : Module) : m.producers.length = m.boundSlots := by
  rw [← m.reduceOption_slots, List.reduceOption_length_eq, boundSlots]

/-- One for every module of a graph, and one for each of its bound slots. -/
def Graph.walkBound (g : Graph) : Nat := (g.modules.map fun m => 1 + m.boundSlots).sum

/-- The place of the next producer that a frame looks at. -/
def Frame.next (f : Frame) : Nat := f.entry.producers.length - f.pending.length

namespace Walk

variable {g : Graph} {w v : Walk g} {ids : List ModuleId} {n : Nat}

/-! ## Iterations -/

/-- The modules by which a path has grown. -/
def pushed (before after : List Frame) : List ModuleId :=
  (after.take (after.length - before.length)).map (·.id)

/-- **The iterations of the walk.**  After `n` of them the walk stands at a state, and it has
entered the modules of a record, the last one first. -/
inductive Iterates (g : Graph) : Nat → List ModuleId → Walk g → Prop where
  | start {w : Walk g} (h : (fresh g).enter .sink = .next w) : Iterates g 0 (pushed [] w.path) w
  | next {n : Nat} {ids : List ModuleId} {w v : Walk g} (hw : Iterates g n ids w)
      (h : w.step = .next v) : Iterates g (n + 1) (pushed w.path v.path ++ ids) v

/-- How the walk ends, after a number of iterations and with a record: it does not get as far as
the first iteration, it finds its path empty, or it fails in an iteration. -/
inductive Ends (g : Graph) : Nat → List ModuleId → Except WalkFault (List Module) → Prop where
  | unstarted {fault : WalkFault} (h : (fresh g).enter .sink = .stuck fault) :
      Ends g 0 [] (.error fault)
  | finished {n : Nat} {ids : List ModuleId} {w : Walk g} {order : List Module}
      (hw : Iterates g n ids w) (h : w.step = .done order) : Ends g n ids (.ok order)
  | failed {n : Nat} {ids : List ModuleId} {w : Walk g} {fault : WalkFault}
      (hw : Iterates g n ids w) (h : w.step = .stuck fault) : Ends g (n + 1) ids (.error fault)

/-- **What an iteration does.**  It takes the frame at the end of the path off, if that frame has
looked at all its producers.  Otherwise it moves the frame on by one producer, and either puts at
most one frame on top of it or fails because of that producer. -/
inductive Turns (w : Walk g) : Move g → Prop where
  | pop {f : Frame} {path : List Frame} {v : Walk g} (hpath : w.path = f :: path)
      (hnext : f.next = f.entry.producers.length) (hv : v.path = path) : Turns w (.next v)
  | advance {f f' : Frame} {path above : List Frame} {v : Walk g} (hpath : w.path = f :: path)
      (hlt : f.next < f.entry.producers.length) (hv : v.path = above ++ f' :: path)
      (hsame : f'.id = f.id ∧ f'.entry = f.entry) (hnext : f'.next = f.next + 1)
      (habove : above.length ≤ 1) : Turns w (.next v)
  | fail {f : Frame} {path : List Frame} {p : ModuleId} {fault : WalkFault}
      (hpath : w.path = f :: path) (hp : f.entry.producers[f.next]? = some p)
      (hstops : w.Stops f.entry p fault) : Turns w (.stuck fault)

/-! ## The frames of a path -/

/-- A frame stands for a module, and has still to look at the rest of its producers. -/
lemma Trail.pending_eq {done : List ModuleId} {f : Frame} :
    ∀ {child : Option ModuleId} {path : List Frame}, Trail g done child path → f ∈ path →
      g.get? f.id = some f.entry ∧ f.pending = f.entry.producers.drop f.next
  | _, [], _, hf => by simp at hf
  | child, first :: path, ⟨⟨hget, _⟩, ⟨seen, hseen, _⟩, hrest⟩, hf => by
      rcases List.mem_cons.mp hf with rfl | hf
      · have hnext : f.next = (seen ++ child.toList).length := by
          simp only [Frame.next, hseen, List.length_append]
          omega
        rw [hnext, hseen, List.drop_left]
        exact ⟨hget, rfl⟩
      · exact hrest.pending_eq hf

/-- Every module on the path feeds the one below it. -/
lemma Trail.isChain {done : List ModuleId} : ∀ {child : Option ModuleId} {path : List Frame},
    Trail g done child path → path.IsChain fun above below => g.DependsOn below.id above.id
  | _, [], _ => List.IsChain.nil
  | _, [f], _ => List.IsChain.singleton f
  | _, f :: f' :: path, ⟨_, _, hrest⟩ => by
      have hfeeds : g.DependsOn f'.id f.id := by
        obtain ⟨⟨hget, -⟩, ⟨seen, hseen, -⟩, -⟩ := hrest
        exact (Graph.dependsOn_iff hget).mpr (by simp [hseen])
      exact List.IsChain.cons_cons hfeeds hrest.isChain

/-- What is placed has been looked at by the frame below it. -/
lemma Trail.place {done : List ModuleId} {id : ModuleId} {m : Module} {path : List Frame}
    (h : Trail g done none (⟨id, m, []⟩ :: path)) : Trail g (id :: done) none path :=
  Trail.resume List.mem_cons_self (h.2.2.mono fun _ hp => List.mem_cons_of_mem id hp)

/-- A producer that is passed over counts as done. -/
lemma Trail.pass {done : List ModuleId} {id p : ModuleId} {m : Module} {pending : List ModuleId}
    {path : List Frame} (h : Trail g done none (⟨id, m, p :: pending⟩ :: path)) :
    Trail g (p :: done) none (⟨id, m, pending⟩ :: path) := by
  obtain ⟨hf, ⟨seen, hseen, hdone⟩, hrest⟩ := h
  refine ⟨hf, ⟨seen ++ [p], by simpa using hseen, ?_⟩,
    hrest.mono fun _ hq => List.mem_cons_of_mem p hq⟩
  intro q hq
  rcases List.mem_append.mp hq with hq | hq
  · exact List.mem_cons_of_mem p (hdone q hq)
  · rw [List.mem_singleton.mp hq]
    exact List.mem_cons_self

/-- A module that is entered has looked at none of its producers. -/
lemma Trail.enter {done : List ModuleId} {id p : ModuleId} {m q : Module} {pending : List ModuleId}
    {path : List Frame} (h : Trail g done none (⟨id, m, p :: pending⟩ :: path))
    (hq : g.get? p = some q) (hfed : q.isStarved = false) :
    Trail g done none (⟨p, q, q.producers⟩ :: ⟨id, m, pending⟩ :: path) := by
  obtain ⟨hf, ⟨seen, hseen, hdone⟩, hrest⟩ := h
  exact ⟨⟨hq, hfed⟩, ⟨[], rfl, by simp⟩, hf, ⟨seen, by simpa using hseen, hdone⟩, hrest⟩

/-! ## The record -/

lemma pushed_of_le {before after : List Frame} (h : after.length ≤ before.length) :
    pushed before after = [] := by
  simp [pushed, Nat.sub_eq_zero_of_le h]

lemma pushed_cons {before after : List Frame} (f : Frame) (h : after.length = before.length) :
    pushed before (f :: after) = [f.id] := by
  simp [pushed, h]

lemma eq_of_enter {id : ModuleId} (h : w.enter id = .next v) :
    ∃ m, g.get? id = some m ∧ m.isStarved = false ∧
      v = ⟨w.marks.set id .entered, ⟨id, m, m.producers⟩ :: w.path, w.placed⟩ := by
  rw [enter] at h
  split at h
  · cases h
  · rename_i m hm
    split_ifs at h with hstarved
    cases h
    exact ⟨m, hm, by simpa using hstarved, rfl⟩

/-- **What the record says about the state.**  No module is in it twice and all of them have marks;
the path consists of modules of the record, in its order. -/
structure Recorded (w : Walk g) (ids : List ModuleId) : Prop where
  distinct : ids.Nodup
  onPath : (w.path.map (·.id)).Sublist ids
  marked : ∀ id ∈ ids, w.marks.get id ≠ none
  member : ∀ id ∈ ids, ∃ m, g.get? id = some m
  trail : ∃ done, Trail g done none w.path

lemma Recorded.start (h : (fresh g).enter .sink = .next w) : w.Recorded (pushed [] w.path) := by
  obtain ⟨m, hm, hfed, rfl⟩ := eq_of_enter h
  rw [show pushed [] _ = [ModuleId.sink] from pushed_cons _ rfl]
  refine ⟨List.nodup_singleton _, List.Sublist.refl _, ?_, ?_,
    [], ⟨hm, hfed⟩, ⟨[], rfl, by simp⟩, trivial⟩
  · simp [get_set_of_get? hm]
  · simpa using ⟨m, hm⟩

/-- A mark that is set takes none away. -/
lemma get_set_ne_none {id other : ModuleId} {mark : Mark} (h : w.marks.get other ≠ none) :
    (w.marks.set id mark).get other ≠ none := by
  rw [Marks.get_set]
  split_ifs
  · simp
  · exact h

/-- **An iteration keeps the record.**  What it enters has no mark, so it is not in the record. -/
lemma Recorded.step (hw : w.Recorded ids) (h : w.step = .next v) :
    v.Recorded (pushed w.path v.path ++ ids) := by
  obtain ⟨done, htrail⟩ := hw.trail
  have honPath := hw.onPath
  cases moves_of_step h with
  | @place id m path hpath =>
      rw [hpath] at htrail honPath
      rw [pushed_of_le (by simp [hpath]), List.nil_append]
      refine ⟨hw.distinct, (List.sublist_cons_self _ _).trans honPath, ?_, hw.member,
        id :: done, htrail.place⟩
      exact fun other hother => get_set_ne_none (hw.marked other hother)
  | @pass id p m pending path hpath hmark =>
      rw [hpath] at htrail honPath
      rw [pushed_of_le (by simp [hpath]), List.nil_append]
      exact ⟨hw.distinct, honPath, hw.marked, hw.member, p :: done, htrail.pass⟩
  | @enter id p m q pending path hpath hmark hq hfed =>
      rw [hpath] at htrail honPath
      rw [pushed_cons _ (by simp [hpath]), List.singleton_append]
      refine ⟨List.nodup_cons.mpr ⟨fun hp => hw.marked p hp hmark, hw.distinct⟩,
        honPath.cons_cons p, ?_, List.forall_mem_cons.mpr ⟨⟨q, hq⟩, hw.member⟩,
        done, htrail.enter hq hfed⟩
      rw [List.forall_mem_cons]
      refine ⟨by simp [get_set_of_get? hq], fun other hother => ?_⟩
      exact get_set_ne_none (hw.marked other hother)

/-- The record of every state that the iterations lead to. -/
theorem Iterates.recorded (h : Iterates g n ids w) : w.Recorded ids := by
  induction h with
  | start h => exact Recorded.start h
  | next _ h ih => exact ih.step h

/-! ## What one iteration does -/

/-- A frame that is moved on looks at the next of its producers. -/
lemma next_of_pending {f : Frame} {p : ModuleId} {pending : List ModuleId}
    (hf : f.pending = f.entry.producers.drop f.next) (hpending : f.pending = p :: pending) :
    f.next < f.entry.producers.length ∧
      ({ f with pending := pending } : Frame).next = f.next + 1 := by
  have hlength := congrArg List.length hf
  rw [List.length_drop, hpending, List.length_cons] at hlength
  simp only [Frame.next, hpending, List.length_cons]
  omega

lemma Recorded.pending_eq (hw : w.Recorded ids) {f : Frame} {path : List Frame}
    (hpath : w.path = f :: path) : f.pending = f.entry.producers.drop f.next := by
  obtain ⟨done, htrail⟩ := hw.trail
  exact (htrail.pending_eq (by simp [hpath])).2

/-- Every iteration takes a frame off or moves a frame on. -/
lemma Recorded.turns (hw : w.Recorded ids) (hpath : w.path ≠ []) : w.Turns w.step := by
  cases h : w.step with
  | done order => exact absurd (path_of_step_done h).1 hpath
  | stuck fault =>
      obtain ⟨id, m, p, pending, path, hpath, hstops⟩ := stops_of_step h
      refine .fail hpath ?_ hstops
      rw [← List.head?_drop, ← hw.pending_eq hpath]
      rfl
  | next v =>
      cases moves_of_step h with
      | @place id m path hpath => exact .pop hpath (Nat.sub_zero _) rfl
      | @pass id p m pending path hpath hmark =>
          obtain ⟨hlt, hnext⟩ := next_of_pending (hw.pending_eq hpath) rfl
          exact .advance hpath hlt (List.nil_append _).symm ⟨rfl, rfl⟩ hnext (by simp)
      | @enter id p m q pending path hpath hmark hq hfed =>
          obtain ⟨hlt, hnext⟩ := next_of_pending (hw.pending_eq hpath) rfl
          exact .advance hpath hlt (List.singleton_append).symm ⟨rfl, rfl⟩ hnext (by simp)

/-! ## Counting -/

/-- Before anything is marked, every module is still ahead with all its bound slots. -/
lemma unvisited_none (n : Nat) : unvisited (Marks.none g) n =
    ((g.arena.toList.take n).reduceOption.map fun m => 1 + m.boundSlots).sum := by
  induction n with
  | zero => rfl
  | succ n ih =>
      rw [unvisited, ih, Marks.get_none, if_pos rfl, List.take_add_one, List.reduceOption_append,
        List.map_append, List.sum_append, cost, Graph.get?, Array.getElem?_toList]
      congr 1
      cases g.arena[n]? with
      | none => rfl
      | some entry => cases entry with
        | none => rfl
        | some m => simp [m.length_producers]

lemma remaining_start (h : (fresh g).enter .sink = .next w) : w.remaining = g.walkBound := by
  obtain ⟨m, hm, -, rfl⟩ := eq_of_enter h
  have hsize := index_lt_of_get? hm
  have hset := unvisited_set_add (Marks.none g) .sink .entered g.arena.size hsize hsize
    (Marks.get_none _)
  have hall : unvisited (Marks.none g) g.arena.size = g.walkBound := by
    rw [unvisited_none, Graph.walkBound, Graph.modules, List.take_of_length_le (by simp)]
  rw [← hall, ← hset, cost, hm]
  simp [remaining, fresh, pathCost]

/-- **Every iteration is paid for**: those behind and those still ahead stay within the bound. -/
theorem Iterates.add_remaining_le (h : Iterates g n ids w) : n + w.remaining ≤ g.walkBound := by
  induction h with
  | start h => rw [Nat.zero_add, remaining_start h]
  | next _ h ih =>
      have := remaining_lt_of_step h
      omega

/-- A walk with a path is not at its end. -/
lemma remaining_pos (hpath : w.path ≠ []) : 0 < w.remaining := by
  obtain ⟨f, path, hcons⟩ := List.exists_cons_of_ne_nil hpath
  rw [remaining, hcons, pathCost, List.foldr_cons]
  omega

theorem Ends.le_walkBound {result : Except WalkFault (List Module)} (h : Ends g n ids result) :
    n ≤ g.walkBound := by
  cases h with
  | unstarted _ => exact Nat.zero_le _
  | finished hw _ => exact Nat.le_of_add_right_le hw.add_remaining_le
  | @failed n _ w _ hw hstep =>
      obtain ⟨id, m, p, pending, path, hpath, -⟩ := stops_of_step hstep
      have := hw.add_remaining_le
      have := remaining_pos (w := w) (by simp [hpath])
      omega

lemma Ends.distinct {result : Except WalkFault (List Module)} (h : Ends g n ids result) :
    ids.Nodup := by
  cases h with
  | unstarted _ => exact List.nodup_nil
  | finished hw _ => exact hw.recorded.distinct
  | failed hw _ => exact hw.recorded.distinct

/-- From every state that it comes to, the walk goes on to an end. -/
theorem Iterates.exists_ends {n : Nat} {ids : List ModuleId} {w : Walk g}
    (h : Iterates g n ids w) : ∃ n' ids', Ends g n' ids' w.run := by
  induction hr : w.remaining using Nat.strongRecOn generalizing n ids w with
  | _ r ih =>
      rw [run]
      split
      · rename_i v hstep
        exact ih v.remaining (hr ▸ remaining_lt_of_step hstep) (h.next hstep) rfl
      · rename_i order hstep
        exact ⟨n, ids, .finished h hstep⟩
      · rename_i fault hstep
        exact ⟨n + 1, ids, .failed h hstep⟩

lemma exists_ends_scheduled (g : Graph) : ∃ n ids, Ends g n ids g.scheduled := by
  rw [Graph.scheduled]
  cases h : (fresh g).enter .sink with
  | next w => exact (Iterates.start h).exists_ends
  | stuck fault => exact ⟨0, [], .unstarted h⟩
  | done order =>
      rw [enter] at h
      split at h
      · cases h
      · split_ifs at h

end Walk

namespace Graph

/-- **The walk ends, on every graph.**  In all its iterations it enters no module twice and only
modules of the graph; the modules on the path are distinct, and each of them feeds the one below it.
An iteration takes a frame off the path or moves one frame on to the next of its producers, so that
the walk ends within as many iterations as the graph has modules and bound slots.  It ends with an
order, or because of a cycle, an input that is missing, or a handle without a module. -/
theorem walk_terminates (g : Graph) :
    (∀ n ids w, Walk.Iterates g n ids w →
      ids.Nodup ∧ (∀ id ∈ ids, g.contains id = true) ∧ (w.path.map (·.id)).Sublist ids ∧
      (w.path.map (·.id)).Nodup ∧
      w.path.IsChain (fun above below => g.DependsOn below.id above.id) ∧
      (∀ f ∈ w.path, g.get? f.id = some f.entry ∧ f.pending = f.entry.producers.drop f.next) ∧
      (w.path ≠ [] → w.Turns w.step) ∧ n ≤ g.walkBound) ∧
    (∃ n ids, Walk.Ends g n ids g.scheduled ∧ ids.Nodup ∧ n ≤ g.walkBound) ∧
    ((∃ modules, g.scheduled = .ok modules ∧ g.schedule = .ok (.ofModules modules)) ∨
      (∃ name, g.schedule = .error (.cycle name)) ∨
      (∃ name, g.schedule = .error (.unconnectedInput name)) ∨
      ∃ id, g.schedule = .error (.notMember id)) := by
  refine ⟨fun n ids w h => ?_, ?_, ?_⟩
  · have hw := h.recorded
    obtain ⟨done, htrail⟩ := hw.trail
    exact ⟨hw.distinct, fun id hid => contains_iff.mpr (hw.member id hid), hw.onPath,
      hw.distinct.sublist hw.onPath, htrail.isChain, fun f hf => htrail.pending_eq hf, hw.turns,
      Nat.le_of_add_right_le h.add_remaining_le⟩
  · obtain ⟨n, ids, hends⟩ := Walk.exists_ends_scheduled g
    exact ⟨n, ids, hends, hends.distinct, hends.le_walkBound⟩
  · rw [schedule]
    cases g.scheduled with
    | ok modules => exact Or.inl ⟨modules, rfl, rfl⟩
    | error fault =>
        cases fault with
        | cycle id name => exact Or.inr (Or.inl ⟨name, rfl⟩)
        | unconnected name => exact Or.inr (Or.inr (Or.inl ⟨name, rfl⟩))
        | notMember id => exact Or.inr (Or.inr (Or.inr ⟨id, rfl⟩))

/-- The patch with the gain bound to a handle that has no module. -/
def demoDangling : Graph := demo.modifyModule ⟨4⟩ (·.setBinding 0 (some ⟨9⟩))

/-- The walk runs into the handle, after at most nine iterations for five modules and four bound
slots. -/
theorem walk_terminates_demo :
    ∃ n ids, Walk.Ends demoDangling n ids (.error (.notMember ⟨9⟩)) ∧ ids.Nodup ∧ n ≤ 9 := by
  obtain ⟨-, ⟨n, ids, hends, hdistinct, hle⟩, -⟩ := walk_terminates demoDangling
  have hfault : demoDangling.scheduled = .error (.notMember ⟨9⟩) := by decide +kernel
  have hbound : demoDangling.walkBound = 9 := by decide +kernel
  exact ⟨n, ids, hfault ▸ hends, hdistinct, hbound ▸ hle⟩

end Graph

end Patchbay
