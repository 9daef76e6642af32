import Patchbay.Program
import Mathlib.Tactic.Common

/-!
# What a program does

The program of a voice runs on a machine: the state array, the cursor and the two registers, and
whatever else the host of the script keeps.  The statements around the fragments have a fixed
meaning; an access outside the array has none, and then the run has no result.  What a fragment does
is up to the host.

* `Machine.exec`, `Machine.run` — one statement, and a list of statements.
* `Machine.sample`, `Machine.samples` — one sample, which starts with the cursor at the first cell,
  and any number of samples.
* `Reacts` — **the contract of a fragment**: from its input and its own cells it makes its output
  and its own cells anew, and it moves the cursor over its cells.
* `Machine.run_loads`, `Machine.run_stores`, `Machine.run_modulates` — the statements around a
  fragment, each as a fact about every cell.
-/

namespace Patchbay

/-- The state of a voice.  The cells and the registers hold values of any kind, and `rest` is
everything that the host keeps besides them. -/
structure Machine (α σ : Type) where
  cells : List α
  cursor : Nat
  left : α
  right : α
  rest : σ

/-- What the fragments do: a fragment is run for a module, and may fail. -/
abbrev Host (α σ : Type) := ModuleId → Definition → Machine α σ → Option (Machine α σ)

/-- The cells that a fragment has for itself. -/
@[ext] structure Cells (α : Type) where
  params : List α
  workspace : List α
  deriving DecidableEq, Repr

/-- What a fragment makes of its input and its own cells: its output and its own cells. -/
abbrev Reaction (α : Type) := List α → Cells α → List α × Cells α

namespace Machine

variable {α σ : Type}

/-- The cell at a distance from the cursor, if there is one. -/
def address (s : Machine α σ) (offset : Int) : Option Nat :=
  let place := (s.cursor : Int) + offset
  if 0 ≤ place ∧ place < s.cells.length then some place.toNat else none

def register (s : Machine α σ) : Register → α
  | .left => s.left
  | .right => s.right

def setRegister (s : Machine α σ) (register : Register) (a : α) : Machine α σ :=
  match register with
  | .left => { s with left := a }
  | .right => { s with right := a }

def write (s : Machine α σ) (cell : Nat) (a : α) : Machine α σ :=
  { s with cells := s.cells.set cell a }

/-- The machine with a register copied to the cell under the cursor, and the cursor moved on. -/
def push (s : Machine α σ) (register : Register) : Machine α σ :=
  { s with cells := s.cells.set s.cursor (s.register register), cursor := s.cursor + 1 }

/-- **One statement.**  An empty fragment does nothing. -/
def exec (host : Host α σ) (s : Machine α σ) : Statement → Option (Machine α σ)
  | .load register offset => do
      let cell ← s.address offset
      let a ← s.cells[cell]?
      return s.setRegister register a
  | .fragment owner d => if d.code = "" then some s else host owner d s
  | .store register => do
      let _ ← s.address 0
      return s.push register
  | .modulate offset => do
      let cell ← s.address offset
      return s.write cell s.left

def run (host : Host α σ) (statements : List Statement) (s : Machine α σ) :
    Option (Machine α σ) :=
  statements.foldlM (exec host) s

/-- The machine with the cursor at the first cell. -/
def rewind (s : Machine α σ) : Machine α σ := { s with cursor := 0 }

/-- One sample of a program. -/
def sample (host : Host α σ) (statements : List Statement) (s : Machine α σ) :
    Option (Machine α σ) :=
  s.rewind.run host statements

def samples (host : Host α σ) (statements : List Statement) :
    Nat → Machine α σ → Option (Machine α σ)
  | 0, s => some s
  | k + 1, s => (samples host statements k s).bind (sample host statements)

/-! ## Looking at a machine -/

/-- The registers, as the channels of a signal. -/
def registers (s : Machine α σ) : List α := [s.left, s.right]

def slice (s : Machine α σ) (start count : Nat) : List α := (s.cells.drop start).take count

/-- The cells of an instance of a definition that start at a given one. -/
def own (s : Machine α σ) (start : Nat) (d : Definition) : Cells α where
  params := s.slice start d.paramCount
  workspace := s.slice (start + d.paramCount) d.workspaceSize.toNat

end Machine

/-- How many cells an instance of a definition has for itself. -/
def Definition.ownCount (d : Definition) : Nat := d.paramCount + d.workspaceSize.toNat

/-- **The contract of a fragment.**  The fragment of a definition, run from `s` to `t` with the
cursor at the first of its own cells, computes its output and its own cells from its input and its
own cells, changes no other cell, and moves the cursor behind its own cells.  A register that it has
no channel for may be left with anything in it. -/
structure Reacts {α σ : Type} (react : Reaction α) (d : Definition) (s t : Machine α σ) : Prop where
  length : t.cells.length = s.cells.length
  cursor : t.cursor = s.cursor + d.ownCount
  frame : ∀ k, k < s.cursor ∨ s.cursor + d.ownCount ≤ k → t.cells[k]? = s.cells[k]?
  result : (t.registers.take d.outChannels.toNat, t.own s.cursor d) =
    react (s.registers.take d.inChannels.toNat) (s.own s.cursor d)

/-- A host runs the fragment of a module by its contract, in a state array of a given size with the
cursor at the start of the range of the module. -/
def Honours {α σ : Type} (host : Host α σ) (react : Reaction α) (size : Nat) (m : Module)
    (n : Node) : Prop :=
  ∀ s : Machine α σ, s.cells.length = size → s.cursor = n.start →
    ∃ t, s.exec host (.fragment m.id m.definition) = some t ∧ Reacts react m.definition s t

namespace Machine

variable {α σ : Type} {host : Host α σ}

/-! ## Runs -/

lemma run_cons (x : Statement) (statements : List Statement) (s : Machine α σ) :
    s.run host (x :: statements) = (s.exec host x).bind (run host statements) := rfl

lemma run_append (first second : List Statement) (s : Machine α σ) :
    s.run host (first ++ second) = (s.run host first).bind (run host second) := by
  simp only [run, List.foldlM_append]
  rfl

lemma run_append_of_eq {first second : List Statement} {s t : Machine α σ}
    (h : s.run host first = some t) : s.run host (first ++ second) = t.run host second := by
  rw [run_append, h]
  rfl

lemma run_singleton (x : Statement) (s : Machine α σ) : s.run host [x] = s.exec host x := by
  rw [run_cons]
  cases s.exec host x <;> rfl

lemma samples_succ {statements : List Statement} {k : Nat} {v s : Machine α σ}
    (h : v.samples host statements k = some s) :
    v.samples host statements (k + 1) = s.sample host statements := by
  rw [samples, h]
  rfl

/-! ## Single statements -/

lemma address_distance {s : Machine α σ} {cell : Nat} (h : cell < s.cells.length) :
    s.address (distance cell s.cursor) = some cell := by
  have hplace : (s.cursor : Int) + distance cell s.cursor = cell := by
    simp only [distance]
    omega
  simp only [address, hplace, Int.toNat_natCast]
  rw [if_pos (by omega)]

lemma exec_load {s : Machine α σ} {cell : Nat} {a : α} (r : Register)
    (h : s.cells[cell]? = some a) :
    s.exec host (.load r (distance cell s.cursor)) = some (s.setRegister r a) := by
  have hlt := (List.getElem?_eq_some_iff.mp h).1
  simp [exec, address_distance hlt, h]

lemma exec_store {s : Machine α σ} (r : Register) (h : s.cursor < s.cells.length) :
    s.exec host (.store r) = some (s.push r) := by
  have haddress : s.address 0 = some s.cursor := by
    have := address_distance h
    simpa [distance] using this
  simp [exec, haddress]

lemma exec_modulate {s : Machine α σ} {cell : Nat} (h : cell < s.cells.length) :
    s.exec host (.modulate (distance cell s.cursor)) = some (s.write cell s.left) := by
  simp [exec, address_distance h]

/-! ## Slices -/

lemma getElem?_slice (s : Machine α σ) (start count k : Nat) :
    (s.slice start count)[k]? = if k < count then s.cells[start + k]? else none := by
  rw [slice, List.getElem?_take, List.getElem?_drop]

lemma slice_congr {s t : Machine α σ} {start count : Nat}
    (h : ∀ k, start ≤ k → k < start + count → s.cells[k]? = t.cells[k]?) :
    s.slice start count = t.slice start count := by
  apply List.ext_getElem?
  intro k
  rw [getElem?_slice, getElem?_slice]
  split_ifs with hk
  · exact h _ (by omega) (by omega)
  · rfl

lemma own_congr {s t : Machine α σ} {start : Nat} {d : Definition}
    (h : ∀ k, start ≤ k → k < start + d.ownCount → s.cells[k]? = t.cells[k]?) :
    s.own start d = t.own start d := by
  simp only [own, Definition.ownCount] at *
  rw [slice_congr fun k hlow hhigh => h k hlow (by omega),
    slice_congr fun k hlow hhigh => h k (by omega) (by omega)]

/-! ## The statements around a fragment

A channel count of a signal that is moved is one or two: every wire has a channel, and a definition
has at most two. -/

lemma distance_succ (cell base : Nat) : distance cell base + 1 = distance (cell + 1) base := by
  simp only [distance]
  omega

/-- Loading a signal brings the channels of a kept output into the registers. -/
lemma run_loads (host : Host α σ) {s : Machine α σ} {cell : Nat} {channels : UInt8}
    (hchannels : channels = 1 ∨ channels = 2) (h : cell + channels.toNat ≤ s.cells.length) :
    ∃ t, s.run host (.load .left (distance cell s.cursor) ::
        if channels = 2 then [.load .right (distance cell s.cursor + 1)] else []) = some t ∧
      t.cells = s.cells ∧ t.cursor = s.cursor ∧
      t.registers.take channels.toNat = s.slice cell channels.toNat := by
  rcases hchannels with rfl | rfl
  · have hcell : cell < s.cells.length := h
    refine ⟨s.setRegister .left s.cells[cell], ?_, rfl, rfl, ?_⟩
    · rw [if_neg (by decide), run_singleton, exec_load .left (List.getElem?_eq_getElem hcell)]
    · rw [slice, List.drop_eq_getElem_cons hcell]
      rfl
  · have hcell : cell < s.cells.length := Nat.lt_of_lt_of_le (by simp) h
    have hnext : cell + 1 < s.cells.length := h
    refine ⟨(s.setRegister .left s.cells[cell]).setRegister .right s.cells[cell + 1], ?_, rfl, rfl,
      ?_⟩
    · rw [if_pos rfl, run_cons, exec_load .left (List.getElem?_eq_getElem hcell), distance_succ]
      -- the cursor is where it was, so the second address is meant as it is written
      exact (run_singleton _ _).trans (exec_load .right (List.getElem?_eq_getElem hnext))
    · rw [slice, List.drop_eq_getElem_cons hcell, List.drop_eq_getElem_cons hnext]
      rfl

/-- Keeping an output copies the registers into the cells under the cursor. -/
lemma run_stores (host : Host α σ) {s : Machine α σ} {n : Node}
    (hout : n.buffered = true → n.outChannels = 1 ∨ n.outChannels = 2)
    (h : s.cursor + n.outputCount ≤ s.cells.length) :
    ∃ t, s.run host (outputStatements n) = some t ∧ t.registers = s.registers ∧
      t.cells.length = s.cells.length ∧ t.cursor = s.cursor + n.outputCount ∧
      (∀ k, k < s.cursor ∨ s.cursor + n.outputCount ≤ k → t.cells[k]? = s.cells[k]?) ∧
      t.slice s.cursor n.outputCount = s.registers.take n.outputCount := by
  rw [outputStatements]
  cases hbuffered : n.buffered with
  | false =>
      have hcount : n.outputCount = 0 := by simp [Node.outputCount, hbuffered]
      refine ⟨s, rfl, rfl, rfl, by rw [hcount]; rfl, fun _ _ => rfl, ?_⟩
      simp [hcount, slice]
  | true =>
      have hcount : n.outputCount = n.outChannels := by simp [Node.outputCount, hbuffered]
      rw [hcount] at h ⊢
      rcases hout hbuffered with hone | htwo
      · rw [hone] at h ⊢
        refine ⟨s.push .left, ?_, rfl, by simp [push], rfl, ?_, ?_⟩
        · exact (run_singleton _ _).trans (exec_store .left h)
        · intro k hk
          exact List.getElem?_set_ne (by omega)
        · apply List.ext_getElem?
          intro k
          rw [getElem?_slice]
          cases k with
          | zero => simp [push, register, registers, Nat.lt_of_succ_le h]
          | succ k => simp [registers]
      · rw [htwo] at h ⊢
        have hnext : (s.push .left).cursor < (s.push .left).cells.length := by
          simp only [push, List.length_set]
          omega
        refine ⟨(s.push .left).push .right, ?_, rfl, by simp [push], rfl, ?_, ?_⟩
        · rw [if_pos rfl, if_pos rfl, run_cons, exec_store .left (by omega)]
          exact (run_singleton _ _).trans (exec_store .right hnext)
        · intro k hk
          simp only [push]
          rw [List.getElem?_set_ne (by omega), List.getElem?_set_ne (by omega)]
        · apply List.ext_getElem?
          intro k
          rw [getElem?_slice]
          match k with
          | 0 => simp [push, register, registers, Nat.lt_of_succ_lt h]
          | 1 => simp [push, register, registers, Nat.lt_of_succ_le h]
          | k + 2 =>
              rw [if_neg (by omega)]
              simp [registers]

/-- Writing the left register to cells changes those cells and nothing else. -/
lemma run_modulates (host : Host α σ) (targets : List Nat) :
    ∀ {s : Machine α σ}, (∀ k ∈ targets, k < s.cells.length) →
      ∃ t, s.run host (targets.map fun cell => .modulate (distance cell s.cursor)) = some t ∧
        t.registers = s.registers ∧ t.cursor = s.cursor ∧ t.cells.length = s.cells.length ∧
        ∀ k, t.cells[k]? = if k ∈ targets then some s.left else s.cells[k]? := by
  induction targets with
  | nil =>
      intro s _
      exact ⟨s, rfl, rfl, rfl, rfl, by simp⟩
  | cons cell targets ih =>
      intro s hbound
      have hcell : cell < s.cells.length := hbound cell (List.mem_cons_self ..)
      rcases ih (s := s.write cell s.left) (fun k hk => by
        simpa [write] using hbound k (List.mem_cons_of_mem _ hk)) with
        ⟨t, hrun, hregisters, hcursor, hlength, hcells⟩
      refine ⟨t, ?_, hregisters, hcursor, by simpa [write] using hlength, ?_⟩
      · rw [List.map_cons, run_cons, exec_modulate hcell]
        exact hrun
      · intro k
        rw [hcells k]
        by_cases hk : k = cell
        · subst hk
          simp [write, hcell]
        · simp only [write, List.mem_cons, hk, false_or]
          rw [List.getElem?_set_ne (Ne.symm hk)]

end Machine

end Patchbay
