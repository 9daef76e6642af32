import Patchbay.Linker.Link
import Patchbay.Proofs.Voice

/-!
# The script of all voices

The linker puts the programs of all voices one behind the other into one script.  They share the
cursor and the two registers, which nobody clears, and the variable `v`, which is made the state
array of each voice in turn.  This file gives the script a meaning, in a session that has the arrays
of all voices in it, and runs it voice by voice.

* `ScriptStatement`, `script` — the script as data, and `render_script`, its text.
* `Session`, `Session.exec` — what a statement does to a session.  A fragment is up to the host, and
  it can do anything to the whole session.
* `Session.focus`, `Session.absorb` — the part of a session that a voice is meant to work on, and
  the session with another such part.
* `Settles` — **a voice that keeps to itself**: in every session it leaves everything but its part
  as it is, and it makes of its array the same array and the same output.
* `Session.run_voiceScript`, `Session.run_script` — hence what one voice does to a session, and what
  all of them do one after the other.
-/

namespace Patchbay

/-! ## The script and its text -/

inductive ScriptStatement where
  /-- Makes `v` the state array of a voice and sets the cursor to its start. -/
  | select (voice : Nat)
  /-- A statement of the program of a voice. -/
  | step (voice : Nat) (x : Statement)
  /-- Adds the registers to the mix. -/
  | mix
  deriving DecidableEq, Repr

def ScriptStatement.render (config : Config) : ScriptStatement → String
  | .select voice => "v=" ++ config.stateName ++ "[" ++ toString voice ++ "];i=0;\n"
  | .step _ x => x.render
  | .mix => config.mixLeft ++ "+=l;" ++ config.mixRight ++ "+=r;\n"

/-- The part of the script that is about one voice. -/
def voiceScript (voice : Nat) (program : List Statement) : List ScriptStatement :=
  .select voice :: (program.map (.step voice) ++ [.mix])

/-- **The script** of voices with the given programs. -/
def script (programs : List (List Statement)) : List ScriptStatement :=
  (programs.mapIdx voiceScript).flatten

lemma script_concat (programs : List (List Statement)) (program : List Statement) :
    script (programs ++ [program]) = script programs ++ voiceScript programs.length program := by
  simp [script, List.mapIdx_concat]

/-- The text of a program is made of whole lines already. -/
lemma endLine_renderProgram (program : List Statement) :
    endLine (renderProgram program) = renderProgram program := by
  have hend : ∀ xs : List Statement,
      (xs.flatMap (·.render.toList)).getLast?.all (· = '\n') = true := by
    intro xs
    induction xs with
    | nil => rfl
    | cons x xs ih =>
        rw [List.flatMap_cons, List.getLast?_append]
        cases hlast : (xs.flatMap (·.render.toList)).getLast? with
        | some c => simpa [hlast] using ih
        | none =>
            rcases x.render_lines with hempty | hline
            · simp [hempty]
            · simp [hline]
  rw [endLine, renderProgram, String.toList_join, List.flatMap_map, if_pos (hend program)]

lemma render_voiceScript (config : Config) (voice : Nat) (program : List Statement) :
    String.join ((voiceScript voice program).map (·.render config)) =
      config.wrap voice (renderProgram program) := by
  have hprogram : String.join ((program.map (ScriptStatement.step voice)).map (·.render config)) =
      renderProgram program := by
    rw [List.map_map]
    rfl
  rw [voiceScript, List.map_cons, List.map_append, String.join_cons, String.join_append, hprogram]
  simp only [Config.wrap, endLine_renderProgram, ScriptStatement.render, List.map_cons,
    List.map_nil, String.join_cons, String.join_nil, String.append_empty, String.append_assoc]

/-- The text of the script is the code of the wrapped programs. -/
lemma render_script (config : Config) (programs : List (List Statement)) :
    String.join ((script programs).map (·.render config)) =
      String.join (programs.mapIdx fun voice program =>
        config.wrap voice (renderProgram program)) := by
  induction programs using List.reverseRecOn with
  | nil => rfl
  | append_singleton programs program ih =>
      simp only [script_concat, List.map_append, String.join_append, ih, render_voiceScript,
        List.mapIdx_concat, String.join_cons, String.join_nil, String.append_empty]

/-! ## Sessions -/

/-- The state of a script: the state arrays of all voices, what the voices share, and the mix. -/
structure Session (α σ : Type) where
  arrays : List (List α)
  /-- Which of the arrays `v` is, if it is one of them. -/
  active : Option Nat
  cursor : Nat
  left : α
  right : α
  mixLeft : α
  mixRight : α
  /-- Everything else that there is. -/
  rest : σ

/-- What a script is run by: it runs the fragments of the modules of each voice, on the whole
session, and it adds to the mix. -/
structure ScriptHost (α σ : Type) where
  fragment : Nat → ModuleId → Definition → Session α σ → Option (Session α σ)
  add : α → α → α

namespace Session

variable {α σ : Type} {host : ScriptHost α σ} {s t : Session α σ} {v w : Machine α σ}

/-- The part of the session that the statements of a voice are meant to work on. -/
def focus (s : Session α σ) : Option (Machine α σ) := do
  let place ← s.active
  let cells ← s.arrays[place]?
  return ⟨cells, s.cursor, s.left, s.right, s.rest⟩

/-- The session with that part changed, and nothing else. -/
def absorb (s : Session α σ) (v : Machine α σ) : Session α σ :=
  { s with
    arrays := s.active.elim s.arrays fun place => s.arrays.set place v.cells
    cursor := v.cursor
    left := v.left
    right := v.right
    rest := v.rest }

/-- The session when the turn of a voice begins. -/
def turnTo (s : Session α σ) (voice : Nat) : Session α σ :=
  { s with active := some voice, cursor := 0 }

/-- The fragment of a module of a voice.  An empty one does nothing. -/
def fragment (host : ScriptHost α σ) (voice : Nat) (owner : ModuleId) (d : Definition)
    (s : Session α σ) : Option (Session α σ) :=
  if d.code = "" then some s else host.fragment voice owner d s

/-- A statement around a fragment.  It reaches the array that `v` is, and no other. -/
def wire (s : Session α σ) (x : Statement) : Option (Session α σ) := do
  let v ← s.focus
  let w ← v.exec (fun _ _ _ => none) x
  return s.absorb w

/-- **One statement of the script.** -/
def exec (host : ScriptHost α σ) (s : Session α σ) : ScriptStatement → Option (Session α σ)
  | .select voice =>
      if voice < s.arrays.length then some (s.turnTo voice) else none
  | .step voice (.fragment owner d) => s.fragment host voice owner d
  | .step _ x => s.wire x
  | .mix =>
      some { s with
        mixLeft := host.add s.mixLeft s.left
        mixRight := host.add s.mixRight s.right }

def run (host : ScriptHost α σ) (statements : List ScriptStatement) (s : Session α σ) :
    Option (Session α σ) :=
  statements.foldlM (exec host) s

lemma run_cons_of_eq {x : ScriptStatement} {statements : List ScriptStatement}
    (h : s.exec host x = some t) : s.run host (x :: statements) = t.run host statements := by
  rw [run, List.foldlM_cons, h]
  rfl

lemma run_append_of_eq {first second : List ScriptStatement} (h : s.run host first = some t) :
    s.run host (first ++ second) = t.run host second := by
  rw [run, List.foldlM_append]
  change (s.run host first).bind (run host second) = _
  rw [h]
  rfl

/-! ## The part of a voice -/

lemma focus_eq_some_iff :
    s.focus = some v ↔ ∃ place cells, s.active = some place ∧ s.arrays[place]? = some cells ∧
      v = ⟨cells, s.cursor, s.left, s.right, s.rest⟩ := by
  simp only [focus, Option.bind_eq_bind, Option.bind_eq_some_iff, Option.pure_def,
    Option.some.injEq]
  constructor
  · rintro ⟨place, hactive, cells, hcells, rfl⟩
    exact ⟨place, cells, hactive, hcells, rfl⟩
  · rintro ⟨place, cells, hactive, hcells, rfl⟩
    exact ⟨place, hactive, cells, hcells, rfl⟩

/-- Where a voice has an array, its part is what was put there last. -/
lemma focus_absorb (h : s.focus = some v) (w : Machine α σ) : (s.absorb w).focus = some w := by
  rcases focus_eq_some_iff.mp h with ⟨place, cells, hactive, hcells, -⟩
  have hplace := (List.getElem?_eq_some_iff.mp hcells).1
  refine focus_eq_some_iff.mpr ⟨place, w.cells, hactive, ?_, rfl⟩
  simp [absorb, hactive, hplace]

lemma absorb_absorb (s : Session α σ) (v w : Machine α σ) :
    (s.absorb v).absorb w = s.absorb w := by
  cases hactive : s.active with
  | none => simp [absorb, hactive]
  | some place => simp [absorb, hactive, List.set_set]

lemma absorb_focus (h : s.focus = some v) : s.absorb v = s := by
  rcases focus_eq_some_iff.mp h with ⟨place, cells, hactive, hcells, rfl⟩
  rcases List.getElem?_eq_some_iff.mp hcells with ⟨hplace, rfl⟩
  cases s
  simp_all [absorb]

lemma absorb_injective (h : s.focus = some v) : Function.Injective s.absorb := by
  intro w w' heq
  have hfocus := focus_absorb h w
  rw [heq, focus_absorb h w'] at hfocus
  exact (Option.some.inj hfocus).symm

/-- Only the array that `v` is changes. -/
lemma arrays_absorb_of_ne (s : Session α σ) (v : Machine α σ) {place : Nat}
    (h : s.active ≠ some place) : (s.absorb v).arrays[place]? = s.arrays[place]? := by
  cases hactive : s.active with
  | none => simp [absorb, hactive]
  | some other =>
      have hne : other ≠ place := fun heq => h (hactive.trans (congrArg some heq))
      simp [absorb, hactive, List.getElem?_set_ne hne]

end Session

/-! ## Voices that keep to themselves -/

/-- What a voice leaves: its state array, and its output in the registers. -/
structure Take (α : Type) where
  cells : List α
  left : α
  right : α

variable {α σ : Type} {host : ScriptHost α σ} {s : Session α σ}

/-- **A voice keeps to itself.**  Whatever session it is run in, with the cursor at the start of its
array, it changes its part of the session only, and what it leaves there depends on its array
alone. -/
def Settles (host : ScriptHost α σ) (voice : Nat) (program : List Statement) (cells : List α)
    (take : Take α) : Prop :=
  ∀ (s : Session α σ) (v : Machine α σ), s.focus = some v → v.cells = cells → v.cursor = 0 →
    ∃ w, s.run host (program.map (.step voice)) = some (s.absorb w) ∧
      w.cells = take.cells ∧ w.left = take.left ∧ w.right = take.right

namespace Session

lemma exec_select {voice : Nat} {cells : List α} (h : s.arrays[voice]? = some cells) :
    s.exec host (.select voice) = some (s.turnTo voice) :=
  if_pos (List.getElem?_eq_some_iff.mp h).1

lemma focus_turnTo {voice : Nat} {cells : List α} (h : s.arrays[voice]? = some cells) :
    (s.turnTo voice).focus = some ⟨cells, 0, s.left, s.right, s.rest⟩ :=
  focus_eq_some_iff.mpr ⟨voice, cells, rfl, h, rfl⟩

/-- **One voice** changes its array and adds its output to the mix. -/
lemma run_voiceScript {voice : Nat} {program : List Statement} {cells : List α} {take : Take α}
    (hcells : s.arrays[voice]? = some cells) (h : Settles host voice program cells take) :
    ∃ t, s.run host (voiceScript voice program) = some t ∧
      t.arrays = s.arrays.set voice take.cells ∧
      t.mixLeft = host.add s.mixLeft take.left ∧ t.mixRight = host.add s.mixRight take.right := by
  rcases h (s.turnTo voice) _ (focus_turnTo hcells) rfl rfl with ⟨w, hrun, htake, hleft, hright⟩
  rw [voiceScript, run_cons_of_eq (exec_select hcells), run_append_of_eq hrun, ← htake, ← hleft,
    ← hright]
  exact ⟨_, rfl, rfl, rfl, rfl⟩

/-- **All voices, one after the other.**  After any number of them, these have changed their arrays
and added their outputs in their order, and the arrays of the others are as they were. -/
theorem run_script {programs : List (List Statement)} {takes : List (Take α)}
    (hlength : takes.length = programs.length)
    (h : ∀ voice program take, programs[voice]? = some program → takes[voice]? = some take →
      ∃ cells, s.arrays[voice]? = some cells ∧ Settles host voice program cells take) :
    ∀ k, k ≤ programs.length → ∃ t, s.run host (script (programs.take k)) = some t ∧
      (∀ voice, t.arrays[voice]? =
        if voice < k then takes[voice]?.map (·.cells) else s.arrays[voice]?) ∧
      t.mixLeft = (takes.take k).foldl (fun sum take => host.add sum take.left) s.mixLeft ∧
      t.mixRight = (takes.take k).foldl (fun sum take => host.add sum take.right) s.mixRight := by
  intro k
  induction k with
  | zero =>
      intro _
      exact ⟨s, rfl, by simp, rfl, rfl⟩
  | succ k ih =>
      intro hk
      rcases ih (by omega) with ⟨t, hrun, harrays, hleft, hright⟩
      have hprogram : programs[k]? = some programs[k] := List.getElem?_eq_getElem (by omega)
      have htake : takes[k]? = some takes[k] := List.getElem?_eq_getElem (by omega)
      rcases h k _ _ hprogram htake with ⟨cells, hcells, hsettles⟩
      have hcells' : t.arrays[k]? = some cells := by rw [harrays, if_neg (by omega), hcells]
      rcases run_voiceScript hcells' hsettles with ⟨t', hrun', harrays', hleft', hright'⟩
      refine ⟨t', ?_, ?_, ?_, ?_⟩
      · have hcount : (programs.take k).length = k := by
          rw [List.length_take]
          omega
        rw [List.take_add_one, hprogram, Option.toList_some, script_concat, hcount,
          run_append_of_eq hrun, hrun']
      · intro voice
        rw [harrays', List.getElem?_set]
        by_cases hvoice : k = voice
        · subst hvoice
          have hlt := (List.getElem?_eq_some_iff.mp hcells').1
          simp [hlt, htake]
        · rw [if_neg hvoice, harrays]
          by_cases hlt : voice < k
          · rw [if_pos hlt, if_pos (by omega)]
          · rw [if_neg hlt, if_neg (by omega)]
      · rw [List.take_add_one, htake, Option.toList_some, List.foldl_append, ← hleft, hleft']
        rfl
      · rw [List.take_add_one, htake, Option.toList_some, List.foldl_append, ← hright, hright']
        rfl

end Session

end Patchbay
