import Patchbay.Proofs.Wiring

/-!
# Which outputs are kept

An output is kept in cells of its own, or buffered, if somebody other than the next module reads it.
The layout finds these outputs by going through the modules in their order, with an eye on the
module just before.  Here the finding is read back as a fact about places: who stands where, and
whose slots are bound to whom.

* `Graph.IsSchedule.exists_turn` — at every place of the order there is a turn, with the range that
  the layout has there.
* `Graph.IsSchedule.mem_readBack_iff` — **an output is read back exactly if a reader does not stand
  one place behind it.**
* `Graph.buffering_exact` — which outputs are kept, and what follows for those that are not.
-/

namespace Patchbay.Graph

variable {g : Graph} {modules : List Module} {id p : ModuleId} {k : Nat}

/-! ## Places -/

/-- At every place of the order a module takes its turn, with the range that the layout has at the
same place. -/
lemma IsSchedule.exists_turn (hs : g.IsSchedule modules) (hg : g.WellFormed)
    (hk : (Schedule.ofModules modules).order[k]? = some id) :
    ∃ done m n rest, Turn g modules done m n rest ∧ done.length = k ∧ m.id = id ∧
      (Layout.ofModules modules).nodes[k]? = some n := by
  rw [Schedule.ofModules, ← map_id_placements, List.getElem?_map, Option.map_eq_some_iff] at hk
  obtain ⟨⟨m, n⟩, hplace, hid⟩ := hk
  have hlt := (List.getElem?_eq_some_iff.mp hplace).1
  refine ⟨_, m, n, _, ⟨hg, hs, placements_split hplace⟩, ?_, hid, ?_⟩
  · rw [List.length_take, Nat.min_eq_left (Nat.le_of_lt hlt)]
  · rw [← map_snd_placements, List.getElem?_map, hplace]
    rfl

/-! ## Readers -/

/-- **An output is read back exactly if a reader does not stand one place behind it.** -/
theorem IsSchedule.mem_readBack_iff (hs : g.IsSchedule modules) (hg : g.WellFormed)
    (hp : (Schedule.ofModules modules).order[k]? = some p) :
    p ∈ readBack none modules ↔
      ∃ c reader, (Schedule.ofModules modules).order[c]? = some reader ∧ c ≠ k + 1 ∧
        g.DependsOn reader p := by
  have hnodup : (Schedule.ofModules modules).order.Nodup := hs.nodup
  have hplace := (Schedule.position?_eq_some_iff hnodup).mpr hp
  rw [Patchbay.mem_readBack_iff]
  constructor
  · rintro ⟨before, m, after, hsplit, hproducer, hlast⟩
    refine ⟨before.length, m.id, ?_, ?_, ?_⟩
    · simp [Schedule.ofModules, hsplit]
    · intro heq
      exact hlast ((Schedule.succ_eq_length_iff hnodup hsplit hplace).mp heq.symm)
    · exact (dependsOn_iff (hs.member m (by simp [hsplit]))).mpr hproducer
  · rintro ⟨c, reader, hreader, hne, hdep⟩
    obtain ⟨done, m, n, rest, turn, rfl, rfl, -⟩ := hs.exists_turn hg hreader
    refine ⟨_, m, _, turn.modules_eq, ?_, ?_⟩
    · exact (dependsOn_iff (turn.member turn.placed)).mp hdep
    · intro hlast
      refine hne ?_
      rw [(Schedule.succ_eq_length_iff hnodup turn.modules_eq hplace).mpr hlast, List.length_map]

/-- Nobody reads the sink. -/
lemma WellFormed.not_dependsOn_sink (hg : g.WellFormed) : ¬ g.DependsOn id .sink := by
  rintro ⟨m, hm, hbound⟩
  exact hg.sink_not_mem_producers hm (Module.mem_producers_iff.mpr hbound)

/-! ## What the layout keeps -/

/-- **Which outputs are kept.**  In a graph that compiles, the layout has a range for every module
that runs, and keeps its output exactly if somebody who does not run right after it has a slot bound
to it.  So an output that is kept has one or two channels and is not that of the sink; an output
that is not kept is read by nobody but the next module; and a main input that does not come from the
module just before is found in cells of its producer. -/
theorem buffering_exact (hg : g.Reachable) {patch : Patch} (hpatch : g.compile = .ok patch) :
    (∀ k id, patch.schedule.order[k]? = some id →
      ∃ n, patch.layout.nodes[k]? = some n ∧ n.owner = id ∧
        (n.buffered = true ↔ ∃ c reader, patch.schedule.order[c]? = some reader ∧ c ≠ k + 1 ∧
          g.DependsOn reader id) ∧
        (n.buffered = true → n.outChannels = 1 ∨ n.outChannels = 2) ∧
        (id = .sink → n.buffered = false) ∧
        (n.buffered = false → ∀ c reader, patch.schedule.order[c]? = some reader →
          g.DependsOn reader id → c = k + 1)) ∧
    (∀ id m p, id ∈ patch.schedule.order → g.get? id = some m → m.mainInput = some p →
      patch.schedule.predecessor? id ≠ some p →
      ∃ n cell, patch.layout.get? p = some n ∧ n.buffered = true ∧ n.outputCell? = some cell) := by
  have hwf := hg.wellFormed
  obtain ⟨modules, hmodules, rfl⟩ := compile_eq_ok_iff.mp hpatch
  have hs := (scheduled_spec hwf.id_eq).1 modules hmodules
  constructor
  · intro k id hk
    obtain ⟨done, m, n, rest, turn, -, rfl, hn⟩ := hs.exists_turn hwf hk
    have hbuffered := (buffered_iff_of_mem turn.placed).trans (hs.mem_readBack_iff hwf hk)
    refine ⟨n, hn, owner_eq_of_mem turn.placed, hbuffered, turn.channels_of_buffered, ?_, ?_⟩
    · intro hsink
      rw [← Bool.not_eq_true, hbuffered]
      rintro ⟨c, reader, -, -, hdep⟩
      rw [hsink] at hdep
      exact hwf.not_dependsOn_sink hdep
    · intro hnot c reader hreader hdep
      by_contra hne
      rw [hbuffered.mpr ⟨c, reader, hreader, hne, hdep⟩] at hnot
      cases hnot
  · intro id m p hid hm hinput hprevious
    obtain ⟨k, hk⟩ := List.mem_iff_getElem?.mp hid
    obtain ⟨done, m', n', rest, turn, -, rfl, -⟩ := hs.exists_turn hwf hk
    cases hm.symm.trans (turn.member turn.placed)
    have hproducer : p ∈ m.producers := Module.mem_producers_iff.mpr (Or.inl hinput)
    obtain ⟨q, n, hdone, rfl⟩ := turn.exists_producer hproducer
    have hlast : lastId none (done.map (·.1)) ≠ some q.id := by
      rw [← Schedule.predecessor?_of_split hs.nodup turn.modules_eq]
      exact hprevious
    have hkept := turn.buffered_of_producer hproducer hlast hdone
    have hplaced := turn.placed_of_done hdone
    exact ⟨n, _, get?_ofModules hs.nodup hplaced, hkept, outputCell?_of_buffered hplaced hkept⟩

/-- The ranges of the demo patch. -/
def demoNodes : List Node :=
  [⟨⟨1⟩, 0, 1, 1, 1, false⟩, ⟨⟨2⟩, 2, 1, 0, 2, true⟩, ⟨⟨3⟩, 5, 1, 1, 1, false⟩,
   ⟨⟨4⟩, 7, 1, 0, 2, false⟩, ⟨.sink, 8, 0, 0, 0, false⟩]

lemma exists_demo_layout : ∃ patch, demo.compile = .ok patch ∧
    patch.schedule.order = [⟨1⟩, ⟨2⟩, ⟨3⟩, ⟨4⟩, .sink] ∧ patch.layout.nodes = demoNodes := by
  have hlayout : demo.compile.toOption.map (fun patch => (patch.schedule.order,
      patch.layout.nodes)) = some ([⟨1⟩, ⟨2⟩, ⟨3⟩, ⟨4⟩, .sink], demoNodes) := by decide +kernel
  obtain ⟨patch, hpatch, heq⟩ := exists_ok_of_map hlayout
  exact ⟨patch, hpatch, Prod.mk.inj heq⟩

/-- In the demo patch the pan is read by the amplifier, with the second oscillator in between, and
so its output is kept; that of the first oscillator is read by the pan just behind it. -/
theorem buffering_exact_demo :
    ∃ patch n, demo.compile = .ok patch ∧ patch.layout.nodes[1]? = some n ∧ n.buffered = true ∧
      n.outChannels = 2 ∧ (∃ c reader, patch.schedule.order[c]? = some reader ∧ c ≠ 2 ∧
        demo.DependsOn reader ⟨2⟩) ∧
      ∀ c reader, patch.schedule.order[c]? = some reader → demo.DependsOn reader ⟨1⟩ → c = 1 := by
  obtain ⟨patch, hpatch, horder, hnodes⟩ := exists_demo_layout
  have hplaces := (buffering_exact demo_reachable hpatch).1
  obtain ⟨n, hn, -, -, -, -, hnext⟩ := hplaces 0 ⟨1⟩ (by rw [horder]; rfl)
  obtain ⟨n', hn', -, hbuffered, -⟩ := hplaces 1 ⟨2⟩ (by rw [horder]; rfl)
  rw [hnodes] at hn hn'
  cases hn
  cases hn'
  exact ⟨patch, _, hpatch, by rw [hnodes]; rfl, rfl, rfl, hbuffered.mp rfl, hnext rfl⟩

end Patchbay.Graph
