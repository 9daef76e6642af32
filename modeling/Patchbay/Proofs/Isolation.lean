import Patchbay.Proofs.Script

/-!
# A voice inside a session

A voice was shown to be correct on a machine of its own.  Here the machine is a part of a session,
and the fragments are run on the whole session.  By their contract they leave alone what is no part
of the voice, so that a run of the machine is a run of the session around it.

* `HonoursVoice`, `Graph.VoiceHonoured` — **the contract of a fragment in a session.**
* `Session.localHost` — the fragments as the machine of the voice sees them.  What they do to the
  rest of the session shows as a failure there.
* `Graph.VoiceHonoured.local` — by their contract, they never fail.
* `Session.run_step_of_local`, `Session.run_of_local` — a run of the machine is one of the session.
* `Midway.cells_eq` — what a sample leaves in the state array is determined by the equations, the
  kept outputs included.
-/

namespace Patchbay

variable {α σ : Type}

/-! ## The contract -/

/-- A host runs the fragment of a module of a voice by its contract.  In a session whose `v` is an
array of the given size, with the cursor at the start of the range of the module, it works on this
array, on the cursor and on the registers as the reaction says.  It changes no other array, it does
not make `v` another array, and it does not touch the mix. -/
def HonoursVoice (host : ScriptHost α σ) (voice : Nat) (react : Reaction α) (size : Nat)
    (m : Module) (n : Node) : Prop :=
  ∀ (s : Session α σ) (v : Machine α σ), s.focus = some v → v.cells.length = size →
    v.cursor = n.start →
    ∃ w, s.fragment host voice m.id m.definition = some (s.absorb w) ∧ Reacts react m.definition v w

/-- The contracts of all fragments that a voice runs. -/
def Graph.VoiceHonoured (g : Graph) (layout : Layout) (host : ScriptHost α σ) (voice : Nat)
    (react : ModuleId → Reaction α) : Prop :=
  ∀ id m n, g.Live id → g.get? id = some m → layout.get? id = some n →
    HonoursVoice host voice (react id) layout.size m n

/-! ## The machine of a voice -/

open Classical in
/-- The fragments of a voice as its machine sees them: they have a result there if they have one in
the session and leave the rest of the session as it is in `s`. -/
noncomputable def Session.localHost (host : ScriptHost α σ) (voice : Nat) (s : Session α σ) :
    Host α σ :=
  fun owner d v =>
    (host.fragment voice owner d (s.absorb v)).bind fun t => t.focus.filter (t = s.absorb ·)

variable {host : ScriptHost α σ} {voice : Nat} {s : Session α σ} {v₀ v w : Machine α σ}

namespace Session

open Classical in
lemma exec_fragment_local_iff (hfocus : s.focus = some v₀) {owner : ModuleId} {d : Definition} :
    v.exec (s.localHost host voice) (.fragment owner d) = some w ↔
      (s.absorb v).fragment host voice owner d = some (s.absorb w) := by
  rw [Machine.exec, fragment]
  by_cases hcode : d.code = ""
  · rw [if_pos hcode, if_pos hcode, Option.some.injEq, Option.some.injEq,
      (absorb_injective hfocus).eq_iff]
  · rw [if_neg hcode, if_neg hcode, localHost]
    cases host.fragment voice owner d (s.absorb v) with
    | none => simp
    | some t =>
        rw [Option.bind_some, Option.filter_eq_some_iff, Option.some.injEq, decide_eq_true_eq]
        constructor
        · rintro ⟨-, rfl⟩
          rfl
        · rintro rfl
          exact ⟨focus_absorb hfocus w, rfl⟩

/-- A statement of the machine is one of the session. -/
lemma exec_step_of_local (hfocus : s.focus = some v₀) {x : Statement}
    (h : v.exec (s.localHost host voice) x = some w) :
    (s.absorb v).exec host (.step voice x) = some (s.absorb w) := by
  -- the statements around the fragments do not ask the host
  have hwire : ∀ x, v.exec (fun _ _ _ => none) x = some w →
      (s.absorb v).wire x = some (s.absorb w) := by
    intro x hx
    simp [wire, focus_absorb hfocus, hx, absorb_absorb]
  cases x with
  | fragment owner d => exact (exec_fragment_local_iff hfocus).mp h
  | load register offset => exact hwire (.load register offset) h
  | store register => exact hwire (.store register) h
  | modulate offset => exact hwire (.modulate offset) h

/-- **A run of the machine of a voice is a run of the session around it.** -/
theorem run_step_of_local (hfocus : s.focus = some v₀) {statements : List Statement} :
    ∀ {v : Machine α σ}, v.run (s.localHost host voice) statements = some w →
      (s.absorb v).run host (statements.map (.step voice)) = some (s.absorb w) := by
  induction statements with
  | nil =>
      rintro v ⟨⟩
      rfl
  | cons x statements ih =>
      intro v h
      rw [Machine.run_cons, Option.bind_eq_some_iff] at h
      rcases h with ⟨u, hu, hrest⟩
      rw [List.map_cons, run_cons_of_eq (exec_step_of_local hfocus hu)]
      exact ih hrest

/-- The same for a run from what the voice finds in the session. -/
lemma run_of_local (hfocus : s.focus = some v) {statements : List Statement}
    (h : v.run (s.localHost host voice) statements = some w) :
    s.run host (statements.map (.step voice)) = some (s.absorb w) := by
  have hrun := run_step_of_local hfocus h
  rw [absorb_focus hfocus] at hrun
  exact hrun

end Session

/-- By their contract the fragments keep to the machine of their voice. -/
lemma Graph.VoiceHonoured.local {g : Graph} {layout : Layout} {react : ModuleId → Reaction α}
    (h : g.VoiceHonoured layout host voice react) (hfocus : s.focus = some v₀) :
    g.AllHonoured layout (s.localHost host voice) react := by
  intro id m n hlive hm hn v hlength hcursor
  rcases h id m n hlive hm hn (s.absorb v) v (s.focus_absorb hfocus v) hlength hcursor with
    ⟨w, hw, hreacts⟩
  rw [Session.absorb_absorb] at hw
  exact ⟨w, (Session.exec_fragment_local_iff hfocus).mpr hw, hreacts⟩

/-! ## What a sample leaves -/

lemma Machine.getElem?_eq_of_slice {start count k : Nat}
    (h : v.slice start count = w.slice start count) (hlow : start ≤ k)
    (hhigh : k < start + count) : v.cells[k]? = w.cells[k]? := by
  have hk := congrArg (fun cells => cells[k - start]?) h
  simp only [getElem?_slice] at hk
  rw [if_pos (by omega), if_pos (by omega), Nat.add_sub_cancel' hlow] at hk
  exact hk

/-- **The equations determine what a sample leaves in the state array**, the kept outputs
included. -/
theorem Midway.cells_eq {modules : List Module} {before after : Memory α} {signals : Signals α}
    (h : Midway before after signals (placements modules) [] v)
    (h' : Midway before after signals (placements modules) [] w) : v.cells = w.cells := by
  have hlength := h.length
  have hlength' := h'.length
  rw [List.append_nil] at hlength hlength'
  apply List.ext_getElem?
  intro k
  by_cases hk : k < span (placements modules)
  · rcases exists_placement_of_cell (List.append_nil _).symm hk with ⟨m, n, hmem, hlow, hhigh⟩
    have hown := (h.finished m n hmem).trans (h'.finished m n hmem).symm
    rw [stop_eq_of_mem hmem] at hhigh
    by_cases hparam : k < n.start + m.definition.paramCount
    · exact Machine.getElem?_eq_of_slice (congrArg Cells.params hown) hlow hparam
    · by_cases hworkspace : k < n.start + m.definition.ownCount
      · refine Machine.getElem?_eq_of_slice (congrArg Cells.workspace hown) (by omega) ?_
        rw [Definition.ownCount] at hworkspace
        omega
      · -- behind the own cells there is room for an output that is kept
        have hbuffered : n.buffered = true := by
          by_contra hnot
          rw [Node.outputCount, if_neg hnot] at hhigh
          omega
        rw [outputCount_of_buffered hmem hbuffered] at hhigh
        exact Machine.getElem?_eq_of_slice
          ((h.kept m n hmem hbuffered).trans (h'.kept m n hmem hbuffered).symm) (by omega) hhigh
  · rw [List.getElem?_eq_none (by omega), List.getElem?_eq_none (by omega)]

end Patchbay
