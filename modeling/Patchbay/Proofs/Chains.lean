import Patchbay.Proofs.Buffering
import Patchbay.Proofs.Mixdown

/-!
# Chains

A patch in which nothing drives a parameter is a chain: the sink reads a module, which reads another
one, and so on to a module that reads nothing.  In such a patch every signal is read by the module
that runs next, so the registers carry all of them and the code is nothing but the fragments.

* `Graph.Chain` — the chain of main inputs that ends in a module, and `Graph.Chain.unique`.
* `Linked` — modules in a row, each of which reads the one before it.
* `Graph.IsSchedule.linked` — **a chain can run in one order only**, that of its links: by induction
  from the sink, since every module but the sink has a reader, and the modules further on have
  theirs already.
* `Linked.readBack_eq_nil`, `Linked.statementsFrom_eq` — nothing is kept and nothing is moved.
* `Graph.chain_code` — **a chain compiles to its fragments alone.**
-/

namespace Patchbay

/-! ## Rows of modules -/

/-- Modules in a row: the first reads `previous`, and each of the others the one before it. -/
def Linked : Option ModuleId → List Module → Prop
  | _, [] => True
  | previous, m :: modules => m.mainInput = previous ∧ Linked (some m.id) modules

/-- What a module of the row reads is in the row, unless it stands before it. -/
lemma Linked.mem_of_mainInput {modules : List Module} {m : Module} {p : ModuleId}
    {previous : Option ModuleId} (h : Linked previous modules) (hm : m ∈ modules)
    (hp : m.mainInput = some p) (hne : previous ≠ some p) : p ∈ modules.map (·.id) := by
  induction modules generalizing previous with
  | nil => simp at hm
  | cons x modules ih =>
      obtain ⟨hx, hrest⟩ := h
      rcases List.mem_cons.mp hm with rfl | hm
      · exact absurd (hx.symm.trans hp) hne
      · by_cases hid : x.id = p
        · simp [hid]
        · exact List.mem_cons_of_mem _ (ih hrest hm (by simpa using hid))

/-! ## Nothing to keep and nothing to move -/

/-- A module without driven parameters reads its main input and nothing else. -/
lemma Module.producers_of_free {m : Module} (h : ∀ q ∈ m.params, q.binding = none) :
    m.producers = m.mainInput.toList := by
  rw [producers, List.filterMap_eq_nil_iff.mpr h, List.append_nil]

lemma Linked.readBack_eq_nil {modules : List Module} :
    ∀ {previous : Option ModuleId}, Linked previous modules →
      (∀ m ∈ modules, ∀ q ∈ m.params, q.binding = none) → readBack previous modules = [] := by
  induction modules with
  | nil => simp [readBack]
  | cons m modules ih =>
      rintro previous ⟨hinput, hrest⟩ hfree
      rw [List.forall_mem_cons] at hfree
      rw [readBack, ih hrest hfree.2, Module.producers_of_free hfree.1, hinput]
      cases previous <;> simp

lemma drivenCells_of_free {m : Module} (n : Node) (h : ∀ q ∈ m.params, q.binding = none) :
    drivenCells m n = [] := by
  refine List.eq_nil_iff_forall_not_mem.mpr ?_
  rintro ⟨p, cell⟩ hdriven
  obtain ⟨-, j, q, hq, hbinding, -⟩ := mem_drivenCells_iff.mp hdriven
  simp [h q (List.mem_of_getElem? hq)] at hbinding

/-- **Only the fragments are left**: every input is in the registers, no output is kept and no cell
is driven. -/
lemma Linked.statementsFrom_eq (layout : Layout) {placed : List (Module × Node)} :
    ∀ {previous : Option ModuleId}, Linked previous (placed.map (·.1)) →
      (∀ x ∈ placed, x.2.buffered = false) →
      statementsFrom layout [] previous placed =
        placed.map fun x => .fragment x.1.id x.1.definition := by
  induction placed with
  | nil => simp [statementsFrom]
  | cons x placed ih =>
      rintro previous ⟨hinput, hrest⟩ hbuffered
      rw [List.forall_mem_cons] at hbuffered
      have hread : inputStatements layout previous x.1 x.2 = [] := by
        rw [inputStatements, hinput]
        cases previous <;> simp
      simp [statementsFrom, moduleStatements, hread, outputStatements, fanOutStatements,
        hbuffered.1, ih hrest hbuffered.2]

namespace Graph

variable {g : Graph} {modules : List Module} {id : ModuleId}

/-! ## The chain of main inputs -/

/-- **The chain that ends in a module**: from a module that takes no input, along the main inputs,
to the module itself. -/
inductive Chain (g : Graph) : ModuleId → List ModuleId → Prop where
  | generator {id : ModuleId} {m : Module} (hm : g.get? id = some m) (hin : m.inChannels = 0)
      (hinput : m.mainInput = none) : Chain g id [id]
  | link {id p : ModuleId} {m : Module} {chain : List ModuleId} (hm : g.get? id = some m)
      (hinput : m.mainInput = some p) (hchain : Chain g p chain) : Chain g id (chain ++ [id])

/-- There is one chain at most that ends in a module. -/
lemma Chain.unique {chain chain' : List ModuleId} (h : g.Chain id chain) :
    g.Chain id chain' → chain' = chain := by
  induction h generalizing chain' with
  | generator hm hin hinput =>
      rintro (⟨hm', -, -⟩ | ⟨hm', hinput', -⟩)
      · rfl
      · cases hm.symm.trans hm'
        simp [hinput] at hinput'
  | link hm hinput hchain ih =>
      rintro (⟨hm', -, hinput'⟩ | ⟨hm', hinput', hchain'⟩)
      · cases hm.symm.trans hm'
        simp [hinput] at hinput'
      · cases hm.symm.trans hm'
        cases hinput.symm.trans hinput'
        rw [ih hchain']

/-! ## The order of a chain -/

/-- A module that runs before the sink has a reader, and the reader runs after it. -/
lemma IsSchedule.exists_reader (hs : g.IsSchedule modules) {before after : List Module} {m : Module}
    (hsplit : modules = before ++ m :: after) (hafter : after ≠ []) :
    ∃ reader ∈ after, m.id ∈ reader.producers := by
  have hnodup := hs.nodup
  have hlast := hs.last
  obtain hnil | ⟨between, last, rfl⟩ := List.eq_nil_or_concat after
  · exact absurd hnil hafter
  rw [hsplit, List.map_append, List.map_cons, List.nodup_append, List.nodup_cons] at hnodup
  have hbefore : m.id ∉ before.map (·.id) := fun hmem =>
    hnodup.2.2 _ hmem _ (List.mem_cons_self ..) rfl
  have hsink : m.id ≠ .sink := by
    have hid : last.id = .sink := by simpa [hsplit, List.getLast?_cons] using hlast
    rintro heq
    exact hnodup.2.1.1 (by simp [heq, hid])
  have hlive : g.Live m.id := (hs.live_iff m.id).mp (by simp [hsplit])
  obtain heq | ⟨b, hb, hdep⟩ := Relation.ReflTransGen.cases_tail hlive
  · exact absurd heq hsink
  · obtain ⟨reader, hreader, rfl⟩ := List.mem_map.mp ((hs.live_iff b).mpr hb)
    have hproducer := (dependsOn_iff (hs.member reader hreader)).mp hdep
    refine ⟨reader, ?_, hproducer⟩
    -- a reader that is not behind the module would have it before itself
    rw [hsplit, List.mem_append, List.mem_cons] at hreader
    rcases hreader with hreader | rfl | hreader
    · exfalso
      obtain ⟨first, second, rfl⟩ := List.append_of_mem hreader
      rw [List.append_assoc, List.cons_append] at hsplit
      have hfirst := hs.producersFirst _ _ _ hsplit m.id hproducer
      exact hbefore (by rw [List.map_append]; exact List.mem_append_left _ hfirst)
    · exact absurd (hs.producersFirst _ _ _ hsplit reader.id hproducer) hbefore
    · exact hreader

/-- **A chain can run in one order only.**  By induction from the sink: each module reads the one
before it, if those behind it do. -/
theorem IsSchedule.linked (hs : g.IsSchedule modules)
    (hfree : ∀ m ∈ modules, ∀ q ∈ m.params, q.binding = none) :
    ∀ before after, modules = before ++ after → Linked (lastId none before) after := by
  intro before after
  induction after generalizing before with
  | nil => simp [Linked]
  | cons m after ih =>
      intro hsplit
      have hproducers := Module.producers_of_free (hfree m (by simp [hsplit]))
      have hrest : Linked (some m.id) after := by
        simpa [lastId] using ih (before ++ [m]) (by simp [hsplit])
      refine ⟨?_, hrest⟩
      obtain rfl | ⟨before', x, rfl⟩ := List.eq_nil_or_concat before
      · cases hinput : m.mainInput with
        | none => rfl
        | some p =>
            have hp := hs.producersFirst [] m after hsplit p (by simp [hproducers, hinput])
            simp at hp
      · rw [List.concat_eq_append, List.append_assoc, List.singleton_append] at hsplit
        obtain ⟨reader, hreader, hx⟩ := hs.exists_reader hsplit (by simp)
        have hmem : reader ∈ modules := by
          rw [hsplit]
          exact List.mem_append_right _ (List.mem_cons_of_mem _ hreader)
        have hinput : reader.mainInput = some x.id := by
          simpa [Module.producers_of_free (hfree reader hmem)] using hx
        have hnodup := hs.nodup
        rw [hsplit, List.map_append, List.nodup_append, List.map_cons, List.nodup_cons,
          List.map_cons, List.mem_cons, not_or] at hnodup
        obtain ⟨-, ⟨⟨hne, hnot⟩, -⟩, -⟩ := hnodup
        rcases List.mem_cons.mp hreader with rfl | hreader
        · simp [lastId, hinput]
        · exact absurd (hrest.mem_of_mainInput hreader hinput (by simpa using Ne.symm hne)) hnot

/-- Each module of a chain reads what runs just before it. -/
lemma IsSchedule.mainInput_of_free (hs : g.IsSchedule modules)
    (hfree : ∀ m ∈ modules, ∀ q ∈ m.params, q.binding = none) {before after : List Module}
    {m : Module} (hsplit : modules = before ++ m :: after) : m.mainInput = lastId none before :=
  (hs.linked hfree before _ hsplit).1

/-- The modules up to a place are the chain that ends there. -/
lemma IsSchedule.chain_of_free (hs : g.IsSchedule modules)
    (hfree : ∀ m ∈ modules, ∀ q ∈ m.params, q.binding = none) {before : List Module} :
    ∀ {m : Module} {after : List Module}, modules = before ++ m :: after →
      g.Chain m.id ((before ++ [m]).map (·.id)) := by
  induction before using List.reverseRecOn with
  | nil =>
      intro m after hsplit
      have hmem : m ∈ modules := by simp [hsplit]
      have hinput : m.mainInput = none := hs.mainInput_of_free hfree hsplit
      refine .generator (hs.member m hmem) ?_ hinput
      simpa [Module.isStarved, hinput] using hs.fed m hmem
  | append_singleton before x ih =>
      intro m after hsplit
      have hinput : m.mainInput = some x.id := by
        simpa [lastId] using hs.mainInput_of_free hfree hsplit
      rw [List.append_assoc, List.singleton_append] at hsplit
      have hmem : m ∈ modules := by simp [hsplit]
      rw [List.map_append]
      exact .link (hs.member m hmem) hinput (ih hsplit)

/-! ## The code of a chain -/

/-- The fragments of modules, in the order of their handles. -/
def fragments (g : Graph) (order : List ModuleId) : List String :=
  order.filterMap fun id => (g.get? id).map (·.definition.code)

lemma IsSchedule.fragments_eq (hs : g.IsSchedule modules) :
    g.fragments (modules.map (·.id)) = modules.map (·.definition.code) := by
  rw [fragments, List.filterMap_map, ← List.filterMap_eq_map]
  refine List.filterMap_congr fun m hm => ?_
  simp [hs.member m hm]

end Graph

/-- Lines of fragments, the empty ones of which leave nothing. -/
lemma join_endLine (codes : List String) :
    String.join (codes.map endLine) = String.join ((codes.filter (· ≠ "")).map fun code =>
      if code.toList.getLast? = some '\n' then code else code ++ "\n") := by
  induction codes with
  | nil => rfl
  | cons code codes ih =>
      by_cases hcode : code = ""
      · simp [hcode, endLine, ih]
      · have hend : endLine code =
            if code.toList.getLast? = some '\n' then code else code ++ "\n" := by
          obtain ⟨c, hc⟩ := Option.ne_none_iff_exists'.mp
            (mt List.getLast?_eq_none_iff.mp (mt String.toList_eq_nil_iff.mp hcode))
          simp [endLine, hc]
        simp [hcode, hend, ih]

namespace Graph

variable {g : Graph} {modules : List Module}

/-- The layout of a chain keeps no output. -/
lemma IsSchedule.buffered_of_free (hs : g.IsSchedule modules)
    (hfree : ∀ m ∈ modules, ∀ q ∈ m.params, q.binding = none) {x : Module × Node}
    (hx : x ∈ placements modules) : x.2.buffered = false := by
  have hnone : readBack none modules = [] := (hs.linked hfree [] modules rfl).readBack_eq_nil hfree
  rw [← Bool.not_eq_true, buffered_iff_of_mem hx, hnone]
  simp

/-- The program of a chain is made of its fragments. -/
lemma IsSchedule.program_of_free (hs : g.IsSchedule modules)
    (hfree : ∀ m ∈ modules, ∀ q ∈ m.params, q.binding = none) :
    program modules (.ofModules modules) =
      modules.map fun m => .fragment m.id m.definition := by
  have hlinked : Linked none modules := hs.linked hfree [] modules rfl
  have hdriven : allDrivenCells (placements modules) = [] := by
    rw [allDrivenCells, List.flatMap_eq_nil_iff]
    exact fun x hx => drivenCells_of_free x.2 (hfree x.1 (mem_modules_of_mem hx))
  rw [← map_fst_placements modules] at hlinked
  have hstatements := hlinked.statementsFrom_eq (.ofModules modules)
    fun x hx => hs.buffered_of_free hfree hx
  calc program modules (.ofModules modules)
      = statementsFrom (.ofModules modules) (allDrivenCells (placements modules)) none
          (placements modules) := rfl
    _ = (placements modules).map fun x => .fragment x.1.id x.1.definition := by
        rw [hdriven, hstatements]
    _ = modules.map fun m => .fragment m.id m.definition := by
        conv_rhs => rw [← map_fst_placements modules, List.map_map]
        rfl

/-- **A chain compiles to its fragments alone.**  In a graph that compiles and in which nothing
drives a parameter of a module that runs:

* The modules run in the order of the chain of main inputs that ends in the sink, and this is the
  only chain that does.
* The main input of every module that runs is its predecessor, or it has neither.
* No output is kept.
* The program has no statements but fragments, and the code is made of the fragments that are not
  empty, in the order of the chain, each closed by a line feed unless it ends with one. -/
theorem chain_code (hg : g.Reachable) {patch : Patch} (hpatch : g.compile = .ok patch)
    (hfree : ∀ id ∈ patch.schedule.order, ∀ m, g.get? id = some m →
      ∀ q ∈ m.params, q.binding = none) :
    (g.Chain .sink patch.schedule.order ∧
      ∀ chain, g.Chain .sink chain → chain = patch.schedule.order) ∧
    (∀ id ∈ patch.schedule.order, ∃ m, g.get? id = some m ∧
      m.mainInput = patch.schedule.predecessor? id) ∧
    patch.layout.bufferedCount = 0 ∧
    (∀ statement ∈ g.statements, ∃ id d, statement = .fragment id d) ∧
    patch.code = renderProgram g.statements ∧
    patch.code = String.join (((g.fragments patch.schedule.order).filter (· ≠ "")).map fun code =>
      if code.toList.getLast? = some '\n' then code else code ++ "\n") := by
  have hwf := hg.wellFormed
  obtain ⟨modules, hmodules, rfl⟩ := compile_eq_ok_iff.mp hpatch
  have hs := (scheduled_spec hwf.id_eq).1 modules hmodules
  have hfree' : ∀ m ∈ modules, ∀ q ∈ m.params, q.binding = none :=
    fun m hm => hfree m.id (List.mem_map_of_mem hm) m (hs.member m hm)
  have hprogram := hs.program_of_free hfree'
  have hchain : g.Chain .sink (modules.map (·.id)) := by
    obtain rfl | ⟨before, last, rfl⟩ := List.eq_nil_or_concat modules
    · simpa using hs.last
    · have hlast : last.id = .sink := by simpa using hs.last
      rw [List.concat_eq_append] at hs hfree' ⊢
      rw [← hlast]
      exact hs.chain_of_free hfree' rfl
  refine ⟨⟨hchain, fun chain h => hchain.unique h⟩, ?_, ?_, ?_, code_eq hpatch, ?_⟩
  · intro id hid
    obtain ⟨m, hm, rfl⟩ := List.mem_map.mp hid
    obtain ⟨before, after, hsplit⟩ := List.append_of_mem hm
    refine ⟨m, hs.member m hm, ?_⟩
    rw [hs.mainInput_of_free hfree' hsplit]
    exact (Schedule.predecessor?_of_split hs.nodup hsplit).symm
  · rw [Layout.bufferedCount, List.countP_eq_zero]
    intro n hn
    have hn' : n ∈ (placements modules).map (·.2) := by
      rw [map_snd_placements]
      exact hn
    obtain ⟨x, hx, rfl⟩ := List.mem_map.mp hn'
    simp [hs.buffered_of_free hfree' hx]
  · rw [statements_eq hmodules, hprogram]
    simp
  · rw [code_eq hpatch, statements_eq hmodules, hprogram, renderProgram, List.map_map]
    refine Eq.trans ?_ (join_endLine _)
    rw [Patch.ofModules, Schedule.ofModules, hs.fragments_eq, List.map_map]
    rfl

/-- The demo patch without its modulation. -/
def demoChain : Graph := demo.applyAll [.disconnectParam ⟨4⟩ "gain"]

/-- Without its modulation the demo patch is a chain of an oscillator, a pan and an amplifier, and
of the sink, which has no code. -/
theorem chain_code_demo :
    ∃ patch, demoChain.compile = .ok patch ∧
      demoChain.Chain .sink [⟨1⟩, ⟨2⟩, ⟨4⟩, .sink] ∧ patch.layout.bufferedCount = 0 ∧
      patch.code = "l=v[i+1]=(v[i+1]+v[i])%1;i+=2;\np=v[i++];r=l*p;l=l*(1-p);\n" ++
        "g=v[i++];l*=g;r*=g;\n" := by
  have hreachable : demoChain.Reachable := demo_reachable.applyAll _
  have horder : demoChain.compile.toOption.map (·.schedule.order) =
      some [⟨1⟩, ⟨2⟩, ⟨4⟩, .sink] := by decide +kernel
  have hbindings : ∀ id ∈ [⟨1⟩, ⟨2⟩, ⟨4⟩, ModuleId.sink], ∀ m ∈ demoChain.get? id,
      ∀ q ∈ m.params, q.binding = none := by decide +kernel
  have hfragments : demoChain.fragments [⟨1⟩, ⟨2⟩, ⟨4⟩, .sink] =
      [demoSawtooth.code, demoPan.code, demoMul.code, ""] := by decide +kernel
  obtain ⟨patch, hpatch, horder⟩ := exists_ok_of_map horder
  obtain ⟨⟨hchain, -⟩, -, hbuffered, -, -, hcode⟩ :=
    chain_code hreachable hpatch (horder ▸ hbindings)
  rw [horder] at hchain hcode
  refine ⟨patch, hpatch, hchain, hbuffered, ?_⟩
  rw [hcode, hfragments]
  decide +kernel

end Graph

end Patchbay
