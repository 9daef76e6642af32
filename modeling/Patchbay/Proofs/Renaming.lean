import Patchbay.Proofs.Mirror

/-!
# Graphs under new handles

Which handles the modules of a graph have is an accident of the order in which they were added.
This file gives the modules of a graph other handles, all but the sink, and shows that the graph
compiles to the same texts.

* `Graph.IsRenaming` — a graph that has the modules of another one under new handles, and no others.
* `Graph.renamed` — for every choice of new handles there is such a graph.
* `Graph.spread` — new handles for the modules of a graph, completed to new handles for everything,
  so that no two modules of any kind meet.
* `Graph.compile_renamed` — **compiling does not depend on the handles.**
-/

namespace Patchbay

lemma Module.relabel_congr {ρ ρ' : ModuleId → ModuleId} {m : Module} (hid : ρ m.id = ρ' m.id)
    (h : ∀ p ∈ m.producers, ρ p = ρ' p) : m.relabel ρ = m.relabel ρ' := by
  have hmain : m.mainInput.map ρ = m.mainInput.map ρ' :=
    Option.map_congr fun p hp => h p (mem_producers_iff.mpr (Or.inl hp))
  have hparams : m.params.map (Param.relabel ρ) = m.params.map (Param.relabel ρ') := by
    apply List.map_congr_left
    intro q hq
    have hbinding : q.binding.map ρ = q.binding.map ρ' :=
      Option.map_congr fun p hp => h p (mem_producers_iff.mpr (Or.inr ⟨q, hq, hp⟩))
    rw [Param.relabel, Param.relabel, hbinding]
  simp only [relabel, hid, hmain, hparams]

/-- Only the handles of the modules of a patch matter to its relabelling. -/
lemma Patch.relabel_congr {ρ ρ' : ModuleId → ModuleId} {modules : List Module}
    (h : ∀ m ∈ modules, ρ m.id = ρ' m.id) :
    (Patch.ofModules modules).relabel ρ = (Patch.ofModules modules).relabel ρ' := by
  have horder : (modules.map (·.id)).map ρ = (modules.map (·.id)).map ρ' := by
    simpa using h
  have hnodes : (Layout.ofModules modules).nodes.map (Node.relabel ρ) =
      (Layout.ofModules modules).nodes.map (Node.relabel ρ') := by
    apply List.map_congr_left
    intro n hn
    have howner : n.owner ∈ modules.map (·.id) := by
      rw [← Layout.map_owner_placeFrom (readBack none modules) 0]
      exact List.mem_map_of_mem hn
    rcases List.mem_map.mp howner with ⟨m, hm, heq⟩
    rw [Node.relabel, Node.relabel, ← heq, h m hm]
  simp only [relabel, Schedule.relabel, Layout.relabel, ofModules, Schedule.ofModules, horder,
    hnodes]

namespace Graph

variable {g h : Graph} {ρ : ModuleId → ModuleId}

/-- **A graph under new handles**: it has the modules of `g` under their new handles, bound to their
producers under theirs, and no others. -/
structure IsRenaming (ρ : ModuleId → ModuleId) (g h : Graph) : Prop where
  get? : ∀ id m, g.get? id = some m → h.get? (ρ id) = some (m.relabel ρ)
  only : ∀ id' m', h.get? id' = some m' →
    ∃ id m, g.get? id = some m ∧ id' = ρ id ∧ m' = m.relabel ρ

/-! ## New handles for everything -/

/-- A number above those of the new handles. -/
def handleBound (ρ : ModuleId → ModuleId) (g : Graph) : Nat :=
  (List.range g.arena.size).foldr (fun k bound => (ρ ⟨k⟩).index + bound) 1

lemma index_lt_handleBound {id : ModuleId} (hid : g.contains id = true) :
    (ρ id).index < g.handleBound ρ := by
  have hbound : ∀ ks : List Nat, 0 < ks.foldr (fun k bound => (ρ ⟨k⟩).index + bound) 1 ∧
      ∀ k ∈ ks, (ρ ⟨k⟩).index < ks.foldr (fun k bound => (ρ ⟨k⟩).index + bound) 1 := by
    intro ks
    induction ks with
    | nil => simp
    | cons j ks ih =>
        simp only [List.foldr_cons, List.forall_mem_cons]
        refine ⟨by omega, by omega, fun k hk => ?_⟩
        have hlt := ih.2 k hk
        omega
  rcases contains_iff.mp hid with ⟨m, hm⟩
  exact (hbound _).2 id.index (List.mem_range.mpr (Walk.index_lt_of_get? hm))

/-- The new handles of the modules, and others out of their way for what is no module. -/
def spread (ρ : ModuleId → ModuleId) (g : Graph) (id : ModuleId) : ModuleId :=
  if g.contains id then ρ id else ⟨g.handleBound ρ + id.index⟩

lemma spread_of_contains {id : ModuleId} (hid : g.contains id = true) : g.spread ρ id = ρ id :=
  if_pos hid

lemma index_spread_lt_iff {id : ModuleId} :
    (g.spread ρ id).index < g.handleBound ρ ↔ g.contains id = true := by
  by_cases hid : g.contains id = true
  · simp only [spread_of_contains hid, index_lt_handleBound hid, hid]
  · simp [spread, hid]

lemma spread_injective (hρ : Set.InjOn ρ {id | g.contains id = true}) :
    Function.Injective (g.spread ρ) := by
  intro a b hab
  have hsame : g.contains a = true ↔ g.contains b = true := by
    rw [← index_spread_lt_iff (ρ := ρ), hab, index_spread_lt_iff]
  by_cases ha : g.contains a = true
  · have hb := hsame.mp ha
    rw [spread_of_contains ha, spread_of_contains hb] at hab
    exact hρ ha hb hab
  · have hb := mt hsame.mpr ha
    rw [spread, spread, if_neg ha, if_neg hb, ModuleId.mk.injEq, Nat.add_left_cancel_iff] at hab
    exact congrArg ModuleId.mk hab

/-! ## A graph with the new handles -/

/-- The graph with every module put at the place of its new handle. -/
def renamed (ρ : ModuleId → ModuleId) (g : Graph) : Graph :=
  { g with
    arena := Array.ofFn fun k : Fin (g.handleBound ρ) =>
      (g.modules.find? (ρ ·.id = ⟨k⟩)).map (Module.relabel ρ) }

lemma get?_renamed (id : ModuleId) :
    (g.renamed ρ).get? id = if id.index < g.handleBound ρ then
      (g.modules.find? (ρ ·.id = id)).map (Module.relabel ρ) else none := by
  rcases id with ⟨k⟩
  simp only [Graph.get?, renamed, Array.getElem?_ofFn]
  split_ifs <;> rfl

/-- New handles that do not meet lead to a graph. -/
lemma isRenaming_renamed (hg : g.WellFormed) (hρ : Set.InjOn ρ {id | g.contains id = true}) :
    IsRenaming ρ g (g.renamed ρ) := by
  constructor
  · intro id m hm
    have hid : g.contains id = true := contains_iff.mpr ⟨m, hm⟩
    cases hg.id_eq id m hm
    rw [get?_renamed, if_pos (index_lt_handleBound hid)]
    cases hfind : g.modules.find? (ρ ·.id = ρ m.id) with
    | none =>
        have hnot := List.find?_eq_none.mp hfind m ((mem_modules_iff hg).mpr hm)
        simp at hnot
    | some m' =>
        have hm' := (mem_modules_iff hg).mp (List.mem_of_find?_eq_some hfind)
        have heq : ρ m'.id = ρ m.id := by simpa using List.find?_some hfind
        rw [hρ (contains_iff.mpr ⟨m', hm'⟩) hid heq] at hm'
        cases hm.symm.trans hm'
        rfl
  · intro id' m' hm'
    rw [get?_renamed] at hm'
    split_ifs at hm'
    rcases Option.map_eq_some_iff.mp hm' with ⟨m, hfind, rfl⟩
    have heq : ρ m.id = id' := by simpa using List.find?_some hfind
    exact ⟨m.id, m, (mem_modules_iff hg).mp (List.mem_of_find?_eq_some hfind), heq.symm, rfl⟩

/-! ## Compiling under new handles -/

lemma IsRenaming.id_eq (hg : g.WellFormed) (hh : IsRenaming ρ g h) (id' : ModuleId) (m' : Module)
    (hm' : h.get? id' = some m') : m'.id = id' := by
  rcases hh.only id' m' hm' with ⟨id, m, hm, rfl, rfl⟩
  rw [Module.relabel_id, hg.id_eq id m hm]

/-- A graph under new handles looks from the sink like the one it comes from. -/
lemma IsRenaming.mirrors (hg : g.WellFormed) (hρ : Set.InjOn ρ {id | g.contains id = true})
    (hsink : ρ .sink = .sink) (hh : IsRenaming ρ g h) : Mirrors (g.spread ρ) g h := by
  refine ⟨spread_injective hρ, ?_, ?_⟩
  · rcases hg.sink with ⟨m, hm, -⟩
    rw [spread_of_contains (contains_iff.mpr ⟨m, hm⟩), hsink]
  · intro id m _ hm
    have hid : g.spread ρ id = ρ id := spread_of_contains (contains_iff.mpr ⟨m, hm⟩)
    have hself : g.spread ρ m.id = ρ m.id := by rw [hg.id_eq id m hm, hid]
    have hproducers : ∀ p ∈ m.producers, g.spread ρ p = ρ p := by
      intro p hp
      rcases hg.exists_of_mem_producers hm hp with ⟨q, hq, -⟩
      exact spread_of_contains (contains_iff.mpr ⟨q, hq⟩)
    rw [hid, Module.relabel_congr hself hproducers, hh.get? id m hm]

/-- A patch has modules of its graph in it, so the completion of the new handles does not show. -/
lemma relabel_spread (hg : g.WellFormed) {patch : Patch} (hpatch : g.compile = .ok patch) :
    patch.relabel (g.spread ρ) = patch.relabel ρ := by
  rcases compile_eq_ok_iff.mp hpatch with ⟨modules, hmodules, rfl⟩
  have hs := (scheduled_spec hg.id_eq).1 modules hmodules
  apply Patch.relabel_congr
  intro m hm
  exact spread_of_contains (contains_iff.mpr ⟨m, hs.member m hm⟩)

lemma IsRenaming.compile (hg : g.WellFormed) (hρ : Set.InjOn ρ {id | g.contains id = true})
    (hsink : ρ .sink = .sink) (hh : IsRenaming ρ g h) :
    h.compile = g.compile.map (Patch.relabel ρ) := by
  rw [(hh.mirrors hg hρ hsink).compile hg (hh.id_eq hg)]
  cases hpatch : g.compile with
  | error e => rfl
  | ok patch => exact congrArg Except.ok (relabel_spread hg hpatch)

/-- **Compiling does not depend on the handles.**  For all new handles of the modules of a graph
that can come about, different ones for different modules and the old one for the sink, there is a
graph under these handles.  Every such graph compiles to the patch of the first one with the new
handles in the schedule and in the layout, and with the very same texts; every module has the
position and the range it had, its output being kept or not as before.  The one fails where the
other does, with the same error. -/
theorem compile_renamed (hg : g.Reachable) (hρ : Set.InjOn ρ {id | g.contains id = true})
    (hsink : ρ .sink = .sink) :
    (∃ h, IsRenaming ρ g h) ∧ ∀ h, IsRenaming ρ g h →
      (∀ e, h.compile = .error e ↔ g.compile = .error e) ∧
      ∀ patch, g.compile = .ok patch → ∃ patch', h.compile = .ok patch' ∧
        patch' = patch.relabel ρ ∧ patch'.values = patch.values ∧ patch'.code = patch.code ∧
        ∀ id, g.contains id = true →
          patch'.schedule.position? (ρ id) = patch.schedule.position? id ∧
          patch'.layout.get? (ρ id) =
            (patch.layout.get? id).map fun n => { n with owner := ρ id } := by
  have hwf := hg.wellFormed
  refine ⟨⟨g.renamed ρ, isRenaming_renamed hwf hρ⟩, ?_⟩
  intro h hh
  have hcompile := hh.compile hwf hρ hsink
  constructor
  · intro e
    rw [hcompile]
    cases g.compile <;> simp [Except.map]
  · intro patch hpatch
    refine ⟨patch.relabel ρ, by rw [hcompile, hpatch]; rfl, rfl, rfl, rfl, ?_⟩
    intro id hid
    have hinjective := spread_injective hρ
    rw [← relabel_spread hwf hpatch, ← spread_of_contains (ρ := ρ) hid]
    refine ⟨Schedule.position?_relabel hinjective _ _, ?_⟩
    rw [Patch.relabel, Layout.get?_relabel hinjective]
    apply Option.map_congr
    intro n hn
    have howner : n.owner = id := by simpa using List.find?_some hn
    rw [Node.relabel, howner]

/-! ## The demo patch, built in another order -/

/-- New handles for the demo patch.  They meet only where there is no module. -/
def demoHandles (id : ModuleId) : ModuleId :=
  match id.index with
  | 1 => ⟨4⟩
  | 2 => ⟨1⟩
  | 3 => ⟨5⟩
  | 4 => ⟨2⟩
  | _ => id

def demoShuffled : Graph := demoStart.applyAll
  [.add "Pan", .add "Mul", .add "Pan", .connect ⟨1⟩ ⟨2⟩, .remove ⟨3⟩, .add "Oscillator/Sawtooth",
   .connect ⟨2⟩ .sink, .add "Oscillator/Sawtooth", .connectParam ⟨5⟩ ⟨2⟩ "gain", .connect ⟨4⟩ ⟨1⟩]

lemma demoShuffled_isRenaming : IsRenaming demoHandles demo demoShuffled := by
  constructor
  · intro id m hm
    have hall : ∀ k < demo.arena.size, ∀ m ∈ demo.get? ⟨k⟩,
        demoShuffled.get? (demoHandles ⟨k⟩) = some (m.relabel demoHandles) := by
      decide +kernel
    exact hall id.index (Walk.index_lt_of_get? hm) m hm
  · intro id' m' hm'
    have hall : ∀ k < demoShuffled.arena.size, ∀ m' ∈ demoShuffled.get? ⟨k⟩,
        ∃ j < demo.arena.size, (⟨k⟩ : ModuleId) = demoHandles ⟨j⟩ ∧
          (demo.get? ⟨j⟩).map (Module.relabel demoHandles) = some m' := by
      decide +kernel
    rcases hall id'.index (Walk.index_lt_of_get? hm') m' hm' with ⟨j, -, hid, hj⟩
    rcases Option.map_eq_some_iff.mp hj with ⟨m, hm, hrelabel⟩
    exact ⟨⟨j⟩, m, hm, hid, hrelabel.symm⟩

lemma demoHandles_injOn : Set.InjOn demoHandles {id | demo.contains id = true} := by
  intro a ha b hb hab
  rcases contains_iff.mp ha with ⟨m, hm⟩
  rcases contains_iff.mp hb with ⟨n, hn⟩
  have hall : ∀ i < demo.arena.size, ∀ j < demo.arena.size, demo.contains ⟨i⟩ = true →
      demo.contains ⟨j⟩ = true → demoHandles ⟨i⟩ = demoHandles ⟨j⟩ → i = j := by
    decide +kernel
  exact congrArg ModuleId.mk
    (hall a.index (Walk.index_lt_of_get? hm) b.index (Walk.index_lt_of_get? hn) ha hb hab)

/-- The demo patch built in another order has the same code, and its modules run in the same order
under their new handles. -/
theorem compile_renamed_demo :
    demo ≠ demoShuffled ∧ ∃ patch patch', demo.compile = .ok patch ∧
      demoShuffled.compile = .ok patch' ∧ patch'.code = patch.code ∧
      patch'.values = patch.values ∧
      patch'.schedule.order = [⟨4⟩, ⟨1⟩, ⟨5⟩, ⟨2⟩, .sink] := by
  refine ⟨by decide +kernel, ?_⟩
  have horder : demo.compile.toOption.map (·.schedule.order) =
      some [⟨1⟩, ⟨2⟩, ⟨3⟩, ⟨4⟩, .sink] := by
    decide +kernel
  cases hpatch : demo.compile with
  | error e =>
      rw [hpatch] at horder
      cases horder
  | ok patch =>
      rw [hpatch] at horder
      rcases ((compile_renamed demo_reachable demoHandles_injOn rfl).2 demoShuffled
        demoShuffled_isRenaming).2 patch hpatch with ⟨patch', hpatch', rfl, hvalues, hcode, -⟩
      refine ⟨patch, patch.relabel demoHandles, rfl, hpatch', hcode, hvalues, ?_⟩
      show patch.schedule.order.map demoHandles = _
      rw [show patch.schedule.order = _ from Option.some.inj horder]
      rfl

end Graph

end Patchbay
