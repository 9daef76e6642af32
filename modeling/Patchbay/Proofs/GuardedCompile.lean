import Patchbay.Guarded.Compile
import Patchbay.Proofs.Guarded
import Patchbay.Proofs.Wiring

/-!
# What compiling as it runs comes to

Compiling as it runs goes over the places of the order, with a guard before every lookup, every
access by place and every subtraction, and after every sum.  This file follows its stages.  All
places are inside their lists, all lookups succeed and both assertions of emission hold; the one
thing that can stop a graph with a schedule is that it asks for more cells than can be counted or
held.

* `Layout.Fits` — **the cells of a layout can be held**, and so they can be counted.
* `Guarded.stop_eq_ok`, `Guarded.exists_stop_eq_error` — the sums of one range.
* `Guarded.allocate_eq_ok`, `Guarded.exists_allocate_eq_error` — allocating, from any place of the
  order on (`Guarded.marksFrom_eq`, `Guarded.nodesFrom_eq_ok`).
* `Guarded.emit_eq_ok`, `Guarded.emit_eq_error` — emitting, from any turn on
  (`Guarded.emitFrom_eq`).
* `Guarded.compile_cases` — **what compiling as it runs comes to.**
-/

namespace Patchbay

/-- **The cells of a layout can be held**, with a text for each of them. -/
def Layout.Fits (l : Layout) : Prop := l.size ≤ Guarded.maxTexts

instance (l : Layout) : Decidable l.Fits := inferInstanceAs (Decidable (_ ≤ _))

namespace Guarded

/-! ## Numbers -/

section

variable {a b : Nat} {n : Node}

lemma plus_eq_ok (h : a + b < UInt64.size) : plus a b = .ok (a + b) := if_pos h

lemma plus_eq_error (h : UInt64.size ≤ a + b) : plus a b = .error (.broken (.overflow (a + b))) :=
  if_neg (Nat.not_lt.mpr h)

/-- What can be held can be counted, also in signed words. -/
lemma maxTexts_lt : maxTexts < halfRange - 1 ∧ halfRange < UInt64.size := by decide

lemma signed_eq {x : Int} (h : -(halfRange : Int) ≤ x ∧ x < halfRange) : signed x = .ok x :=
  if_pos h

/-- Cells that a signed word can count have a distance. -/
lemma relative_eq (ha : a < halfRange) (hb : b < halfRange) :
    relative a b = .ok (distance a b) := by
  have hcell : signed (a : Int) = .ok (a : Int) := signed_eq (by omega)
  have hbase : signed (b : Int) = .ok (b : Int) := signed_eq (by omega)
  rw [relative, hcell, hbase]
  exact signed_eq (by omega)

/-- So has the cell behind the first one. -/
lemma signed_distance_succ (ha : a + 1 < halfRange) (hb : b < halfRange) :
    signed (distance a b + 1) = .ok (distance a b + 1) := by
  rw [distance]
  exact signed_eq (by omega)

lemma count_eq_ok (h : n.count < UInt64.size) : count n = .ok n.count := by
  have hinner : n.paramCount + n.workspaceSize < UInt64.size := by
    rw [Node.count] at h
    omega
  rw [count, plus_eq_ok hinner]
  exact plus_eq_ok h

/-- The sums of a range that can be counted. -/
lemma stop_eq_ok (h : n.stop < UInt64.size) : stop n = .ok n.stop := by
  have hcount : n.count < UInt64.size := by
    rw [Node.stop] at h
    omega
  rw [stop, count_eq_ok hcount]
  exact plus_eq_ok h

/-- Of a range that goes too far, one of the sums overflows. -/
lemma exists_stop_eq_error (h : UInt64.size ≤ n.stop) :
    ∃ sum, stop n = .error (.broken (.overflow sum)) := by
  rw [stop, count]
  by_cases hinner : n.paramCount + n.workspaceSize < UInt64.size
  · rw [plus_eq_ok hinner, ok_bind]
    by_cases hcount : n.paramCount + n.workspaceSize + n.outputCount < UInt64.size
    · rw [plus_eq_ok hcount]
      exact ⟨_, plus_eq_error h⟩
    · rw [plus_eq_error (Nat.not_lt.mp hcount)]
      exact ⟨_, rfl⟩
  · rw [plus_eq_error (Nat.not_lt.mp hinner)]
    exact ⟨_, rfl⟩

lemma outputCell_eq (h : n.stop < UInt64.size) : outputCell n = .ok n.outputCell? := by
  rw [Node.stop, Node.count] at h
  rw [outputCell, Node.outputCell?]
  split_ifs
  · rw [plus_eq_ok (by omega), ok_bind, plus_eq_ok (by omega)]
    rfl
  · rfl

end

/-! ## Places -/

section

variable {s : Schedule}

/-- The place of a module lies inside the order, and so does the place before it. -/
lemma predecessor_eq (hnodup : s.order.Nodup) (id : ModuleId) :
    predecessor s s.positions id = .ok (s.predecessor? id) := by
  rw [predecessor, Schedule.lookup_positions hnodup, Schedule.predecessor?]
  cases hid : s.position? id with
  | none => rfl
  | some k =>
      cases k with
      | zero => rfl
      | succ k =>
          have hlt := Schedule.lt_of_position? hid
          have hk : s.order[k]? = some s.order[k] := List.getElem?_eq_getElem (by omega)
          simp only [hk, reach_eq_ok hk]
          rfl

lemma entry_eq (hnodup : s.order.Nodup) (place : Nat) (p : Param) :
    entry s.positions place p = paramEntry s place p := by
  rw [entry, paramEntry]
  cases p.binding with
  | none => rfl
  | some producer =>
      have hplace := Schedule.lookup_positions hnodup producer
      cases hposition : s.position? producer with
      | none => simp [hplace, hposition]
      | some position => simp [hplace, hposition]

/-! ## Allocating -/

/-- The marks of the modules in a list. -/
def flags (s : Schedule) (kept : List ModuleId) : Array Bool := (s.order.map kept.contains).toArray

variable {kept kept' : List ModuleId} {place : Nat} {previous : Option ModuleId}

lemma flags_nil (s : Schedule) : flags s [] = Array.replicate s.order.length false := by
  simp [flags, List.map_eq_replicate_iff.mpr]

lemma flags_congr (h : ∀ id ∈ s.order, id ∈ kept ↔ id ∈ kept') : flags s kept = flags s kept' := by
  rw [flags, flags, List.map_congr_left]
  intro id hid
  simpa using h id hid

/-- Marking a place marks the module that runs there. -/
lemma store_flags (hnodup : s.order.Nodup) {p : ModuleId} {k : Nat} (hk : s.position? p = some k) :
    store (flags s kept) k true = .ok (flags s (kept ++ [p])) := by
  have hlt := Schedule.lt_of_position? hk
  have hp := (Schedule.position?_eq_some_iff hnodup).mp hk
  rw [store, if_pos (by simpa [flags] using hlt)]
  congr 1
  apply Array.ext
  · simp [flags]
  · intro j hj hj'
    have hjs : j < s.order.length := by simpa [flags] using hj'
    have hiff : s.order[j] = p ↔ k = j := by
      constructor
      · intro h
        have hj' := (Schedule.position?_eq_some_iff hnodup).mpr
          ((List.getElem?_eq_getElem hjs).trans (congrArg some h))
        exact Option.some.inj (hk.symm.trans hj')
      · rintro rfl
        exact Option.some.inj ((List.getElem?_eq_getElem hjs).symm.trans hp)
    by_cases h : k = j <;> simp [flags, hiff, h]

/-- One producer: it is marked, unless it is the one that has run last. -/
lemma mark_flags (hnodup : s.order.Nodup) {p : ModuleId}
    (hlast : ∀ k, s.position? p = some k → (k + 1 = place ↔ previous = some p)) :
    mark s.positions place (flags s kept) p =
      .ok (flags s (kept ++ if previous = some p then [] else [p])) := by
  rw [mark, Schedule.lookup_positions hnodup]
  cases hk : s.position? p with
  | none =>
      have hout := Schedule.position?_eq_none_iff.mp hk
      refine congrArg Except.ok (flags_congr fun id hid => ?_)
      have hne : id ≠ p := fun h => hout (h ▸ hid)
      split_ifs <;> simp [hne]
  | some k =>
      by_cases hprev : previous = some p
      · simp only [(hlast k hk).mpr hprev, hprev]
        simp [pure, Except.pure]
      · have hne : k + 1 ≠ place := fun h => hprev ((hlast k hk).mp h)
        simp only [hne, hprev, ne_eq, not_false_eq_true, if_true, if_false]
        exact store_flags hnodup hk

/-- All producers of a module. -/
lemma foldlM_mark (hnodup : s.order.Nodup)
    (hlast : ∀ p k, s.position? p = some k → (k + 1 = place ↔ previous = some p)) :
    ∀ (producers kept : List ModuleId), producers.foldlM (mark s.positions place) (flags s kept) =
      .ok (flags s (kept ++ producers.filter (previous ≠ some ·)))
  | [], kept => by
      simp
      rfl
  | p :: producers, kept => by
      rw [List.foldlM_cons, mark_flags hnodup (hlast p), ok_bind, foldlM_mark hnodup hlast]
      by_cases hprev : previous = some p <;> simp [hprev]

end

section

variable {g : Graph} {modules : List Module}

/-- **Marking from any place on**: the outputs that the modules from there on read back are
marked. -/
lemma marksFrom_eq (hs : g.IsSchedule modules) :
    ∀ (rest done : List Module) (kept : List ModuleId), modules = done ++ rest →
      marksFrom g (Schedule.ofModules modules).positions done.length
          (flags (.ofModules modules) kept) (rest.map (·.id)) =
        .ok (flags (.ofModules modules) (kept ++ readBack (lastId none done) rest))
  | [], done, kept, _ => by
      rw [readBack, List.append_nil]
      rfl
  | m :: rest, done, kept, hsplit => by
      have hm := Graph.get_eq_ok_iff.mpr (hs.member m (by simp [hsplit]))
      have hlast : lastId none (done ++ [m]) = some m.id := by simp [lastId]
      have ih := marksFrom_eq hs rest (done ++ [m])
        (kept ++ m.producers.filter (lastId none done ≠ some ·)) (by simp [hsplit])
      rw [List.length_append, List.length_singleton, hlast, List.append_assoc] at ih
      have hmark := foldlM_mark (s := .ofModules modules) hs.nodup
        (fun _ _ => Schedule.succ_eq_length_iff hs.nodup hsplit) m.producers kept
      rw [List.map_cons, marksFrom, hm, plain_ok, ok_bind, hmark, ok_bind, ih, readBack]

/-- One range: the module is there, its mark is there, and its cells are counted. -/
lemma nodesFrom_cons (hs : g.IsSchedule modules) (kept : List ModuleId) {done rest : List Module}
    {m : Module} (hsplit : modules = done ++ m :: rest) (start : Nat) :
    nodesFrom g (flags (.ofModules modules) kept).toList done.length start
        ((m :: rest).map (·.id)) = do
      let behind ← stop (Node.ofModule m start (kept.contains m.id))
      let nodes ← nodesFrom g (flags (.ofModules modules) kept).toList (done.length + 1) behind
        (rest.map (·.id))
      return Node.ofModule m start (kept.contains m.id) :: nodes := by
  have hm := Graph.get_eq_ok_iff.mpr (hs.member m (by simp [hsplit]))
  have hflag : (flags (.ofModules modules) kept).toList[done.length]? =
      some (kept.contains m.id) := by
    simp [flags, Schedule.ofModules, hsplit]
  rw [List.map_cons, nodesFrom, hm, plain_ok, ok_bind, reach_eq_ok hflag, ok_bind]
  rfl

lemma add_size_placeFrom_cons (kept : List ModuleId) (start : Nat) (m : Module)
    (rest : List Module) :
    start + Layout.size ⟨Layout.placeFrom kept start (m :: rest)⟩ =
      (Node.ofModule m start (kept.contains m.id)).stop + Layout.size
        ⟨Layout.placeFrom kept (Node.ofModule m start (kept.contains m.id)).stop rest⟩ :=
  (Nat.add_assoc ..).symm

/-- Giving out ranges from any place on, as long as the cells can be counted. -/
lemma nodesFrom_eq_ok (hs : g.IsSchedule modules) (kept : List ModuleId) :
    ∀ (rest done : List Module) (start : Nat), modules = done ++ rest →
      start + Layout.size ⟨Layout.placeFrom kept start rest⟩ < UInt64.size →
      nodesFrom g (flags (.ofModules modules) kept).toList done.length start (rest.map (·.id)) =
        .ok (Layout.placeFrom kept start rest)
  | [], _, _, _, _ => rfl
  | m :: rest, done, start, hsplit, hsize => by
      rw [add_size_placeFrom_cons] at hsize
      have ih := nodesFrom_eq_ok hs kept rest (done ++ [m]) _ (by simp [hsplit]) hsize
      rw [List.length_append, List.length_singleton] at ih
      rw [nodesFrom_cons hs kept hsplit, stop_eq_ok (by omega), ok_bind, ih]
      rfl

/-- If they cannot, a sum overflows. -/
lemma exists_nodesFrom_eq_error (hs : g.IsSchedule modules) (kept : List ModuleId) :
    ∀ (rest done : List Module) (start : Nat), modules = done ++ rest → start < UInt64.size →
      UInt64.size ≤ start + Layout.size ⟨Layout.placeFrom kept start rest⟩ →
      ∃ sum, nodesFrom g (flags (.ofModules modules) kept).toList done.length start
        (rest.map (·.id)) = .error (.broken (.overflow sum))
  | [], _, start, _, hstart, hsize => absurd hstart (Nat.not_lt.mpr hsize)
  | m :: rest, done, start, hsplit, hstart, hsize => by
      rw [add_size_placeFrom_cons] at hsize
      rw [nodesFrom_cons hs kept hsplit]
      by_cases hstop : (Node.ofModule m start (kept.contains m.id)).stop < UInt64.size
      · obtain ⟨sum, hrest⟩ :=
          exists_nodesFrom_eq_error hs kept rest (done ++ [m]) _ (by simp [hsplit]) hstop hsize
        rw [List.length_append, List.length_singleton] at hrest
        rw [stop_eq_ok hstop, ok_bind, hrest]
        exact ⟨sum, rfl⟩
      · obtain ⟨sum, herror⟩ := exists_stop_eq_error (Nat.not_lt.mp hstop)
        rw [herror]
        exact ⟨sum, rfl⟩

lemma allocate_eq_bind (hs : g.IsSchedule modules) :
    allocate g (.ofModules modules) = do
      let nodes ← nodesFrom g (flags (.ofModules modules) (readBack none modules)).toList 0 0
        (modules.map (·.id))
      return ⟨nodes⟩ := by
  have hmarks : marksFrom g (Schedule.ofModules modules).positions 0
      (Array.replicate (Schedule.ofModules modules).order.length false)
      (Schedule.ofModules modules).order =
        .ok (flags (.ofModules modules) (readBack none modules)) := by
    rw [← flags_nil]
    exact marksFrom_eq hs modules [] [] rfl
  rw [allocate, hmarks, ok_bind]
  rfl

/-- **Allocating succeeds if the cells can be counted.** -/
theorem allocate_eq_ok (hs : g.IsSchedule modules)
    (hsize : (Layout.ofModules modules).size < UInt64.size) :
    allocate g (.ofModules modules) = .ok (.ofModules modules) := by
  have hnodes : nodesFrom g (flags (.ofModules modules) (readBack none modules)).toList 0 0
      (modules.map (·.id)) = .ok (Layout.placeFrom (readBack none modules) 0 modules) :=
    nodesFrom_eq_ok hs _ modules [] 0 rfl (by rwa [Nat.zero_add])
  rw [allocate_eq_bind hs, hnodes]
  rfl

/-- **Otherwise a sum overflows.** -/
theorem exists_allocate_eq_error (hs : g.IsSchedule modules)
    (hsize : UInt64.size ≤ (Layout.ofModules modules).size) :
    ∃ sum, allocate g (.ofModules modules) = .error (.broken (.overflow sum)) := by
  obtain ⟨sum, hnodes⟩ : ∃ sum, nodesFrom g
      (flags (.ofModules modules) (readBack none modules)).toList 0 0 (modules.map (·.id)) =
        .error (.broken (.overflow sum)) :=
    exists_nodesFrom_eq_error hs _ modules [] 0 rfl (by decide) (by rwa [Nat.zero_add])
  rw [allocate_eq_bind hs, hnodes]
  exact ⟨sum, rfl⟩

end

/-! ## Emitting -/

section

variable {g : Graph} {modules : List Module} {done rest : List (Module × Node)} {m : Module}
  {n : Node}

/-- A range whose cells can be held can be counted to its end. -/
lemma stop_lt_of_fits (hfits : (Layout.ofModules modules).Fits) (h : (m, n) ∈ placements modules) :
    n.stop < halfRange - 1 ∧ n.stop < UInt64.size := by
  have hstop := stop_le_size h
  rw [← size_ofModules] at hstop
  have hmax := maxTexts_lt
  rw [Layout.Fits] at hfits
  omega

/-- A range is at least as long as its parameters. -/
lemma values_eq {s : Schedule} (hnodup : s.order.Nodup) (place : Nat) (m : Module)
    (hcount : n.count < UInt64.size) :
    values s.positions place m n = .ok (moduleEntries s place m n) := by
  have hle : n.paramCount ≤ n.count := by
    rw [Node.count, Nat.add_assoc]
    exact Nat.le_add_right _ _
  have hentries : m.params.map (entry s.positions place) = m.params.map (paramEntry s place) :=
    List.map_congr_left fun p _ => entry_eq hnodup place p
  rw [values, count_eq_ok hcount, ok_bind, minus, if_pos hle, hentries]
  rfl

/-- The main input is in the registers or in a kept output. -/
lemma input_eq (turn : Turn g modules done m n rest) (hfits : (Layout.ofModules modules).Fits) :
    input (.ofModules modules) (Schedule.ofModules modules).positions (.ofModules modules) m n =
      .ok (inputStatements (.ofModules modules) (lastId none (done.map (·.1))) m n) := by
  rw [input, inputStatements]
  cases hinput : m.mainInput with
  | none => rfl
  | some producer =>
      have hp : producer ∈ m.producers := Module.mem_producers_iff.mpr (Or.inl hinput)
      rcases turn.exists_producer hp with ⟨q, nq, hq, rfl⟩
      have hprevious : (Schedule.ofModules modules).predecessor? n.owner =
          lastId none (done.map (·.1)) := by
        rw [owner_eq_of_mem turn.placed]
        exact Schedule.predecessor?_of_split turn.schedule.nodup turn.modules_eq
      have hpredecessor :=
        predecessor_eq (s := .ofModules modules) turn.schedule.nodup n.owner
      simp only [hpredecessor, ok_bind, hprevious]
      by_cases hlast : lastId none (done.map (·.1)) = some q.id
      · simp only [hlast, if_true]
        rfl
      · have hplaced := turn.placed_of_done hq
        have hcell := outputCell?_of_buffered hplaced (turn.buffered_of_producer hp hlast hq)
        have hget := get?_ofModules turn.schedule.nodup hplaced
        have hq_lt := stop_lt_of_fits hfits hplaced
        have hn_lt := stop_lt_of_fits hfits turn.placed
        have hq_stop := stop_eq_of_mem hplaced
        have hn_stop := stop_eq_of_mem turn.placed
        have hcell_lt : nq.start + q.definition.ownCount + 1 < halfRange := by omega
        have hbase_lt : n.start < halfRange := by omega
        have hrelative := relative_eq (Nat.lt_of_succ_lt hcell_lt) hbase_lt
        have hright := signed_distance_succ hcell_lt hbase_lt
        rw [if_neg hlast, if_neg hlast, hget, Option.bind_some, Option.elim_some,
          outputCell_eq hq_lt.2, hcell, ok_bind]
        dsimp only
        rw [hrelative, ok_bind]
        by_cases hwide : m.inChannels = 2
        · rw [if_pos hwide, if_pos hwide, hright]
          rfl
        · rw [if_neg hwide, if_neg hwide]
          rfl

lemma fanOutStatements_append (first second : List (ModuleId × Nat)) (m : Module) (n : Node) :
    fanOutStatements (first ++ second) m n =
      fanOutStatements first m n ++ fanOutStatements second m n := by
  simp [fanOutStatements]

/-- The write to a parameter of another range, without guards. -/
def modulation? (node target : Node) (slot : Param × Nat) : Option Statement :=
  if slot.1.binding = some node.owner then
    some (.modulate (distance (target.paramCell slot.2) node.stop))
  else none

/-- What a module writes to one other range. -/
lemma fanOutStatements_drivenCells {m' : Module} {n' : Node} (howner : n.owner = m.id)
    (hne : m'.id ≠ m.id) :
    fanOutStatements (drivenCells m' n') m n =
      m'.params.zipIdx.filterMap (modulation? n n') := by
  rw [fanOutStatements, drivenCells, List.mapIdx_eq_zipIdx_map, List.reduceOption,
    List.filterMap_map, List.filter_filterMap, List.filter_filterMap, List.map_filterMap]
  refine List.filterMap_congr fun slot _ => ?_
  rcases slot with ⟨p, index⟩
  rw [modulation?, howner]
  cases hbinding : p.binding with
  | none => simp [hbinding]
  | some producer =>
      by_cases h : producer = m.id
      · simp [hbinding, h, hne.symm]
      · by_cases h' : producer = m'.id <;> simp [hbinding, h, h', hne, Option.filter]

/-- What succeeds for every item of a list succeeds for the list. -/
lemma mapM_eq_ok {α β : Type} {f : α → Except Failure β} {f' : α → β} :
    ∀ {xs : List α}, (∀ x ∈ xs, f x = .ok (f' x)) → xs.mapM f = .ok (xs.map f')
  | [], _ => rfl
  | x :: xs, h => by
      have ih := mapM_eq_ok fun y hy => h y (List.mem_cons_of_mem x hy)
      rw [List.mapM_cons, h x List.mem_cons_self, ok_bind, ih]
      rfl

/-- The cells that a module writes to can be counted. -/
lemma mapM_modulation_eq (turn : Turn g modules done m n rest)
    (hfits : (Layout.ofModules modules).Fits) {m' : Module} {n' : Node}
    (hm' : (m', n') ∈ placements modules) :
    m'.params.zipIdx.mapM (modulation n n') = .ok (m'.params.zipIdx.map (modulation? n n')) := by
  refine mapM_eq_ok fun slot hslot => ?_
  rcases slot with ⟨p, index⟩
  rw [modulation, modulation?]
  split_ifs
  · have hindex : index < m'.params.length := by
      have := (List.mem_zipIdx hslot).2.1
      omega
    rw [turn.params_length hm'] at hindex
    have hn_lt := stop_lt_of_fits hfits turn.placed
    have hn'_lt := stop_lt_of_fits hfits hm'
    have hn'_stop := stop_eq_of_mem hm'
    rw [Definition.ownCount] at hn'_stop
    rw [paramCell, plus_eq_ok (by omega), ok_bind, stop_eq_ok hn_lt.2, ok_bind,
      relative_eq (by omega) (by omega)]
    rfl
  · rfl

/-- The consumers in all ranges are found. -/
lemma fanOut_eq (turn : Turn g modules done m n rest) (hfits : (Layout.ofModules modules).Fits) :
    ∀ placed : List (Module × Node), (∀ x ∈ placed, x ∈ placements modules) →
      fanOut g n (placed.map (·.2)) = .ok (fanOutStatements (allDrivenCells placed) m n)
  | [], _ => rfl
  | (m', n') :: placed, hplaced => by
      have hm' := hplaced (m', n') (by simp)
      have ih := fanOut_eq turn hfits placed fun x hx => hplaced x (by simp [hx])
      have hcells : allDrivenCells ((m', n') :: placed) =
          drivenCells m' n' ++ allDrivenCells placed := by
        simp [allDrivenCells]
      rw [List.map_cons, fanOut, hcells, fanOutStatements_append, owner_eq_of_mem hm',
        owner_eq_of_mem turn.placed]
      by_cases hid : m'.id = m.id
      · have hnone : fanOutStatements (drivenCells m' n') m n = [] := by
          rw [fanOutStatements, List.map_eq_nil_iff, List.filter_eq_nil_iff]
          rintro ⟨p, cell⟩ hcell
          have hp := (mem_drivenCells_iff.mp hcell).1
          simpa [hid] using hp
        rw [if_pos hid, ih, hnone, List.nil_append]
      · rw [if_neg hid, Graph.get_eq_ok_iff.mpr (turn.member hm'), plain_ok, ok_bind,
          mapM_modulation_eq turn hfits hm', ok_bind, ih,
          fanOutStatements_drivenCells (owner_eq_of_mem turn.placed) hid]
        rw [ok_bind, List.reduceOption, List.filterMap_map]
        rfl

/-- **Emitting from any turn on.** -/
lemma emitFrom_eq (hwf : g.WellFormed) (hs : g.IsSchedule modules)
    (hfits : (Layout.ofModules modules).Fits) :
    ∀ rest done : List (Module × Node), placements modules = done ++ rest →
      emitFrom g (.ofModules modules) (Schedule.ofModules modules).positions (.ofModules modules)
          done.length (rest.map (·.2)) =
        .ok (entriesFrom (.ofModules modules) done.length rest,
          statementsFrom (.ofModules modules) (allDrivenCells (placements modules))
            (lastId none (done.map (·.1))) rest)
  | [], _, _ => rfl
  | (m, n) :: rest, done, hsplit => by
      have turn : Turn g modules done m n rest := ⟨hwf, hs, hsplit⟩
      have hm := Graph.get_eq_ok_iff.mpr (turn.member turn.placed)
      have hcount : n.count < UInt64.size :=
        Nat.lt_of_le_of_lt (Nat.le_add_left ..) (stop_lt_of_fits hfits turn.placed).2
      have hvalues := values_eq (s := .ofModules modules) hs.nodup done.length m hcount
      have hfan := fanOut_eq turn hfits (placements modules) fun _ hx => hx
      rw [map_snd_placements] at hfan
      have ih := emitFrom_eq hwf hs hfits rest (done ++ [(m, n)]) (by simp [hsplit])
      have hlast : lastId none ((done ++ [(m, n)]).map (·.1)) = some m.id := by simp [lastId]
      rw [List.length_append, List.length_singleton, hlast] at ih
      rw [List.map_cons, emitFrom, owner_eq_of_mem turn.placed, hm, plain_ok, ok_bind,
        hvalues, ok_bind, input_eq turn hfits, ok_bind, hfan, ok_bind, ih]
      simp only [statementsFrom, moduleStatements, entriesFrom, List.zipIdx_cons,
        List.flatMap_cons]
      rfl

/-- **Emitting succeeds if the cells can be held.** -/
theorem emit_eq_ok (hwf : g.WellFormed) (hs : g.IsSchedule modules)
    (hfits : (Layout.ofModules modules).Fits) :
    emit g (.ofModules modules) (.ofModules modules) = .ok (.ofModules modules) := by
  have hreserve : reserve (Layout.ofModules modules).size = .ok () := if_pos hfits
  have hemit : emitFrom g (.ofModules modules) (Schedule.ofModules modules).positions
      (.ofModules modules) 0 (Layout.ofModules modules).nodes =
        .ok (entries modules (.ofModules modules) (.ofModules modules),
          program modules (.ofModules modules)) := by
    rw [← map_snd_placements, entries_eq]
    exact emitFrom_eq hwf hs hfits (placements modules) [] rfl
  have hlength : (entries modules (.ofModules modules) (.ofModules modules)).length =
      (Layout.ofModules modules).size := by
    rw [length_entries hwf hs]
  rw [emit, hreserve, ok_bind, hemit, ok_bind]
  simp only [ensure, hlength, if_true, ok_bind]
  rfl

/-- **Otherwise there is no room for them.** -/
theorem emit_eq_error (s : Schedule) {layout : Layout} (h : ¬ layout.Fits) :
    emit g s layout = .error (.broken (.tooMany layout.size)) := by
  have hreserve : reserve layout.size = .error (.broken (.tooMany layout.size)) := if_neg h
  rw [emit, hreserve]
  rfl

/-! ## Compiling -/

lemma compile_of_error {e : GraphError} (he : g.compile = .error e) :
    compile g = .error (.refused e) := by
  obtain ⟨fault, hfault, rfl⟩ := Graph.compile_eq_error_iff.mp he
  rw [compile, Graph.schedule, hfault]
  rfl

/-- **A graph with a patch that can be held compiles to it.** -/
theorem compile_of_fits (hwf : g.WellFormed) {patch : Patch} (hpatch : g.compile = .ok patch)
    (hfits : patch.layout.Fits) : compile g = .ok patch := by
  obtain ⟨modules, hmodules, rfl⟩ := Graph.compile_eq_ok_iff.mp hpatch
  have hs := (Graph.scheduled_spec hwf.id_eq).1 modules hmodules
  have hsize : (Layout.ofModules modules).size < UInt64.size :=
    Nat.lt_of_le_of_lt hfits (by decide)
  rw [compile, Graph.schedule, hmodules, plain_ok, ok_bind, allocate_eq_ok hs hsize, ok_bind,
    emit_eq_ok hwf hs hfits]

/-- **If it cannot be held, compiling comes to a breach**: a sum overflows, or there is no room. -/
theorem compile_of_not_fits (hwf : g.WellFormed) {patch : Patch} (hpatch : g.compile = .ok patch)
    (hfits : ¬ patch.layout.Fits) :
    ∃ breach, compile g = .error (.broken breach) ∧
      ((UInt64.size ≤ patch.stateSize ∧ ∃ sum, breach = .overflow sum) ∨
        (patch.stateSize < UInt64.size ∧ breach = .tooMany patch.stateSize)) := by
  obtain ⟨modules, hmodules, rfl⟩ := Graph.compile_eq_ok_iff.mp hpatch
  have hs := (Graph.scheduled_spec hwf.id_eq).1 modules hmodules
  rw [compile, Graph.schedule, hmodules, plain_ok, ok_bind]
  by_cases hsize : (Layout.ofModules modules).size < UInt64.size
  · rw [allocate_eq_ok hs hsize, ok_bind]
    exact ⟨_, emit_eq_error _ hfits, Or.inr ⟨hsize, rfl⟩⟩
  · obtain ⟨sum, hallocate⟩ := exists_allocate_eq_error hs (Nat.not_lt.mp hsize)
    rw [hallocate]
    exact ⟨_, rfl, Or.inl ⟨Nat.not_lt.mp hsize, sum, rfl⟩⟩

/-- **What compiling as it runs comes to**: the error of the graph, its patch, or a breach if the
patch cannot be held. -/
theorem compile_cases (hwf : g.WellFormed) :
    (∃ e, g.compile = .error e ∧ compile g = .error (.refused e)) ∨
    (∃ patch, g.compile = .ok patch ∧ patch.layout.Fits ∧ compile g = .ok patch) ∨
    (∃ patch breach, g.compile = .ok patch ∧ ¬ patch.layout.Fits ∧
      compile g = .error (.broken breach) ∧
      ((UInt64.size ≤ patch.stateSize ∧ ∃ sum, breach = .overflow sum) ∨
        (patch.stateSize < UInt64.size ∧ breach = .tooMany patch.stateSize))) := by
  cases hcompile : g.compile with
  | error e => exact Or.inl ⟨e, rfl, compile_of_error hcompile⟩
  | ok patch =>
      by_cases hfits : patch.layout.Fits
      · exact Or.inr (Or.inl ⟨patch, rfl, hfits, compile_of_fits hwf hcompile hfits⟩)
      · obtain ⟨breach, hbreach, hwhy⟩ := compile_of_not_fits hwf hcompile hfits
        exact Or.inr (Or.inr ⟨patch, breach, rfl, hfits, hbreach, hwhy⟩)

lemma compile_eq_ok_iff (hwf : g.WellFormed) {patch : Patch} :
    compile g = .ok patch ↔ g.compile = .ok patch ∧ patch.layout.Fits := by
  refine ⟨fun h => ?_, fun ⟨hpatch, hfits⟩ => compile_of_fits hwf hpatch hfits⟩
  rcases compile_cases hwf with
    ⟨_, -, hguarded⟩ | ⟨_, hpatch, hfits, hguarded⟩ | ⟨_, _, -, -, hguarded, -⟩
  · cases hguarded.symm.trans h
  · cases hguarded.symm.trans h
    exact ⟨hpatch, hfits⟩
  · cases hguarded.symm.trans h

lemma compile_eq_refused_iff (hwf : g.WellFormed) {e : GraphError} :
    compile g = .error (.refused e) ↔ g.compile = .error e := by
  refine ⟨fun h => ?_, compile_of_error⟩
  rcases compile_cases hwf with
    ⟨_, he, hguarded⟩ | ⟨_, -, -, hguarded⟩ | ⟨_, _, -, -, hguarded, -⟩
  · cases hguarded.symm.trans h
    exact he
  · cases hguarded.symm.trans h
  · cases hguarded.symm.trans h

/-- A breach comes from the size of a patch. -/
lemma exists_of_compile_eq_broken (hwf : g.WellFormed) {breach : Breach}
    (h : compile g = .error (.broken breach)) :
    ∃ patch, g.compile = .ok patch ∧ ¬ patch.layout.Fits ∧
      ((UInt64.size ≤ patch.stateSize ∧ ∃ sum, breach = .overflow sum) ∨
        (patch.stateSize < UInt64.size ∧ breach = .tooMany patch.stateSize)) := by
  rcases compile_cases hwf with
    ⟨_, -, hguarded⟩ | ⟨_, -, -, hguarded⟩ | ⟨patch, _, hpatch, hnot, hguarded, hwhy⟩
  · cases hguarded.symm.trans h
  · cases hguarded.symm.trans h
  · cases hguarded.symm.trans h
    exact ⟨patch, hpatch, hnot, hwhy⟩

end

end Guarded

end Patchbay
