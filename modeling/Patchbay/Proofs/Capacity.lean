import Patchbay.Proofs.GuardedCompile

/-!
# Graphs, and what a machine can hold

Here the edits, the queries and the stages of compiling, each with its guards, are put together for
the graphs that can come about.  Nothing in them goes wrong but for the size of the state array:
a definition may ask for any workspace that a word can count, so that a graph without faults may ask
for more cells than can be counted or held.

* `Graph.oversized` — such a graph.
* `Graph.no_internal_failure` — **no edit, no query and no stage of compiling comes to a breach, but
  for the size of the state array.**
* `Graph.compile_outcome` — **when compiling as it runs succeeds, and what its errors say.**
-/

namespace Patchbay

namespace Graph

variable {g : Graph}

/-! ## A graph that asks for too much -/

/-- A source with a parameter and as much workspace as a word can count, which is one cell too
many. -/
def oversizedSource : Definition :=
  { name := "Reverb", inChannels := 0, outChannels := 2, paramNames := ["decay"],
    workspaceSize := 18446744073709551615 }

def oversizedStart : Graph :=
  { demoStart with catalog := Catalog.withSink.fillAll [.register oversizedSource] }

/-- The source, connected to the sink. -/
def oversized : Graph := oversizedStart.applyAll [.add "Reverb", .connect ⟨1⟩ .sink]

lemma new_oversized :
    Graph.new (Catalog.withSink.fillAll [.register oversizedSource]) = .ok oversizedStart := by
  rfl

lemma oversized_reachable : oversized.Reachable :=
  ⟨_, oversizedStart, _, ⟨.withSink, [.register oversizedSource], Or.inr rfl, rfl⟩, new_oversized,
    rfl⟩

/-! ## No internal failure -/

/-- **No edit, no query and no stage of compiling comes to a breach, but for the size of the state
array.**  On a graph that can come about, every edit and the query with each access guarded is what
it is without guards: it does what it does or reports its error, leaving the graph as it was, and it
never reads or writes outside a list.  Once the modules have an order, the place before each of them
lies in the order; the state array is allocated if its cells can be counted, and only the sums of
its size can fail; the texts are emitted if the initial values can be held, and only making room for
them can fail.  So no lookup fails, no mark is set or read outside the order, no count is taken from
a smaller one, every main input is in the registers or in a kept output, and every cell has its
initial value. -/
theorem no_internal_failure (hg : g.Reachable) :
    (∀ e, (Guarded.apply e).perform g = Guarded.settled g (g.successEvent? e) (g.apply e)) ∧
    (∀ id param, Guarded.paramBinding g id param = plain (g.paramBinding id param)) ∧
    (∀ s, g.schedule = .ok s →
      (∀ id, Guarded.predecessor s s.positions id = .ok (s.predecessor? id)) ∧
      ∃ patch, g.compile = .ok patch ∧ patch.schedule = s ∧
        (patch.stateSize < UInt64.size → Guarded.allocate g s = .ok patch.layout) ∧
        (UInt64.size ≤ patch.stateSize →
          ∃ sum, Guarded.allocate g s = .error (.broken (.overflow sum))) ∧
        (patch.layout.Fits → Guarded.emit g s patch.layout = .ok patch) ∧
        (¬ patch.layout.Fits →
          Guarded.emit g s patch.layout = .error (.broken (.tooMany patch.stateSize)))) ∧
    ((∀ patch, g.compile = .ok patch → patch.layout.Fits) →
      Guarded.compile g = plain g.compile) := by
  refine ⟨Guarded.perform_apply g, Guarded.paramBinding_eq g, ?_, ?_⟩
  · intro s hs
    rcases schedule_eq_ok_iff.mp hs with ⟨modules, hmodules, rfl⟩
    have hsched := (scheduled_spec hg.wellFormed.id_eq).1 modules hmodules
    exact ⟨Guarded.predecessor_eq hsched.nodup, .ofModules modules,
      compile_eq_ok_iff.mpr ⟨modules, hmodules, rfl⟩, rfl, Guarded.allocate_eq_ok hsched,
      Guarded.exists_allocate_eq_error hsched, Guarded.emit_eq_ok hg.wellFormed hsched,
      Guarded.emit_eq_error _⟩
  · intro hfits
    cases hcompile : g.compile with
    | error e => exact Guarded.compile_of_error hcompile
    | ok patch => exact Guarded.compile_of_fits hg.wellFormed hcompile (hfits patch hcompile)

/-- The stages of compiling the demo patch, which keeps an output and drives a parameter. -/
theorem no_internal_failure_demo :
    demo.schedule = .ok ⟨[⟨1⟩, ⟨2⟩, ⟨3⟩, ⟨4⟩, .sink]⟩ ∧
    ∃ patch, demo.compile = .ok patch ∧ patch.schedule = ⟨[⟨1⟩, ⟨2⟩, ⟨3⟩, ⟨4⟩, .sink]⟩ ∧
      Guarded.allocate demo ⟨[⟨1⟩, ⟨2⟩, ⟨3⟩, ⟨4⟩, .sink]⟩ = .ok patch.layout ∧
      Guarded.emit demo ⟨[⟨1⟩, ⟨2⟩, ⟨3⟩, ⟨4⟩, .sink]⟩ patch.layout = .ok patch := by
  have hs : demo.schedule = .ok ⟨[⟨1⟩, ⟨2⟩, ⟨3⟩, ⟨4⟩, .sink]⟩ := by decide +kernel
  obtain ⟨patch, hpatch, horder, hallocate, -, hemit, -⟩ :=
    ((no_internal_failure demo_reachable).2.2.1 _ hs).2
  obtain ⟨patch', hpatch', hsize⟩ : ∃ patch, demo.compile = .ok patch ∧ patch.stateSize = 8 :=
    exists_ok_of_map (by decide +kernel)
  cases hpatch.symm.trans hpatch'
  have hfits : patch.layout.Fits := Nat.le_trans (Nat.le_of_eq hsize) (by decide)
  exact ⟨hs, patch, hpatch, horder, hallocate (Nat.lt_of_le_of_lt hfits (by decide)), hemit hfits⟩

/-- The oversized graph has an order, but its cells cannot be counted. -/
theorem oversized_allocate :
    oversized.Reachable ∧ oversized.schedule = .ok ⟨[⟨1⟩, .sink]⟩ ∧
    Guarded.allocate oversized ⟨[⟨1⟩, .sink]⟩ =
      .error (.broken (.overflow 18446744073709551616)) :=
  ⟨oversized_reachable, by decide +kernel, by decide +kernel⟩

/-! ## When a graph compiles as it runs -/

/-- **When a graph compiles as it runs, and what its errors say.**  It compiles if everything that
the sink needs has the main input it takes, nothing that the sink needs feeds back into itself, and
the cells that it asks for can be held; then it compiles to its patch.  An error that is reported is
a cycle or a missing input and names a module among what the sink needs that has this fault.  A
graph without faults is stopped only by its size: by a sum that overflows, or by more initial values
than can be held. -/
theorem compile_outcome (hg : g.Reachable) :
    ((∃ patch, Guarded.compile g = .ok patch) ↔
      (∀ id m, g.Live id → g.get? id = some m → 0 < m.inChannels → ∃ p, m.mainInput = some p) ∧
      (∀ id, g.Live id → ¬ g.OnCycle id) ∧
      (∀ patch, g.compile = .ok patch → patch.layout.Fits)) ∧
    (∀ patch, Guarded.compile g = .ok patch → g.compile = .ok patch) ∧
    (∀ e, Guarded.compile g = .error (.refused e) →
      (∃ id m, e = .cycle m.name ∧ g.Live id ∧ g.get? id = some m ∧ g.OnCycle id) ∨
      (∃ id m, e = .unconnectedInput m.name ∧ g.Live id ∧ g.get? id = some m ∧
        0 < m.inChannels ∧ m.mainInput = none)) ∧
    (∀ breach, Guarded.compile g = .error (.broken breach) →
      ∃ patch, g.compile = .ok patch ∧ ¬ patch.layout.Fits ∧
        ((UInt64.size ≤ patch.stateSize ∧ ∃ sum, breach = .overflow sum) ∨
          (patch.stateSize < UInt64.size ∧ breach = .tooMany patch.stateSize))) := by
  have hwf := hg.wellFormed
  refine ⟨⟨?_, ?_⟩, fun _ h => ((Guarded.compile_eq_ok_iff hwf).mp h).1,
    fun _ h => compile_error_explained hwf ((Guarded.compile_eq_refused_iff hwf).mp h),
    fun _ h => Guarded.exists_of_compile_eq_broken hwf h⟩
  · rintro ⟨patch, hcompile⟩
    obtain ⟨hpatch, hfits⟩ := (Guarded.compile_eq_ok_iff hwf).mp hcompile
    obtain ⟨hfed, hacyclic⟩ := (exists_compile_iff hwf).mp ⟨patch, hpatch⟩
    refine ⟨hfed, hacyclic, fun patch' hpatch' => ?_⟩
    cases hpatch.symm.trans hpatch'
    exact hfits
  · rintro ⟨hfed, hacyclic, hfits⟩
    obtain ⟨patch, hpatch⟩ := (exists_compile_iff hwf).mpr ⟨hfed, hacyclic⟩
    exact ⟨patch, (Guarded.compile_eq_ok_iff hwf).mpr ⟨hpatch, hfits patch hpatch⟩⟩

/-- The demo patch compiles, so that nothing in it feeds back; with an oscillator that modulates
itself it does not, and the error names the oscillator. -/
theorem compile_outcome_demo :
    (∃ patch, Guarded.compile demo = .ok patch) ∧ (∀ id, demo.Live id → ¬ demo.OnCycle id) ∧
    Guarded.compile demoLoop = .error (.refused (.cycle "Sawtooth")) ∧
    ∃ id m, demoLoop.get? id = some m ∧ m.name = "Sawtooth" ∧ demoLoop.OnCycle id := by
  obtain ⟨patch, hpatch, -⟩ : ∃ patch, Guarded.compile demo = .ok patch ∧ patch.stateSize = 8 :=
    exists_ok_of_map (by decide +kernel)
  have herror : Guarded.compile demoLoop = .error (.refused (.cycle "Sawtooth")) := by
    decide +kernel
  refine ⟨⟨patch, hpatch⟩, ((compile_outcome demo_reachable).1.mp ⟨patch, hpatch⟩).2.1, herror, ?_⟩
  rcases (compile_outcome demoLoop_reachable).2.2.1 _ herror with
    ⟨id, m, hname, -, hm, hcycle⟩ | ⟨id, m, hname, -⟩
  · exact ⟨id, m, hm, (GraphError.cycle.inj hname).symm, hcycle⟩
  · cases hname

/-- Nothing lacks its input in the oversized graph and nothing feeds back, but it has no patch that
can be held. -/
theorem oversized_compile :
    oversized.Reachable ∧
    (∀ id m, oversized.Live id → oversized.get? id = some m → 0 < m.inChannels →
      ∃ p, m.mainInput = some p) ∧
    (∀ id, oversized.Live id → ¬ oversized.OnCycle id) ∧
    Guarded.compile oversized = .error (.broken (.overflow 18446744073709551616)) := by
  obtain ⟨patch, hpatch, -⟩ :
      ∃ patch, oversized.compile = .ok patch ∧ patch.stateSize = 18446744073709551616 :=
    exists_ok_of_map (by decide +kernel)
  obtain ⟨hfed, hacyclic⟩ :=
    (exists_compile_iff oversized_reachable.wellFormed).mp ⟨patch, hpatch⟩
  exact ⟨oversized_reachable, hfed, hacyclic, by decide +kernel⟩

end Graph

end Patchbay
