import Patchbay.Proofs.StateArray

/-!
# What the cells start with

The initial values are written range by range, as the modules run, and every module writes its
values without looking at the layout.  That the text of a cell still stands at the place of the cell
is a matter of lengths: what the modules before it have written is as long as the ranges before its
own.

* `Binary32.literal_chars`, `Binary32.literal_ne_empty` — a literal is a text of letters, digits,
  points and signs, so it can stand between separators.
* `Param.startText` — what a parameter starts with, and `Turn.paramEntry_eq`: it is never left
  blank, since whatever drives a parameter runs earlier.
* `Turn.getElem?_entries` — **the texts of a range stand at the cells of the range.**
* `Graph.StartsWith` — the texts that the cells of a patch start with.
* `Graph.initial_values_exact` — the initial values of a patch, cell by cell.
-/

namespace Patchbay

/-! ## Literals -/

/-- The characters that literals are made of. -/
def isLiteralChar (c : Char) : Bool := c.isAlphanum || c = '.' || c = '-'

lemma isLiteralChar_of_isDigit {c : Char} (h : c.isDigit = true) : isLiteralChar c = true := by
  simp [isLiteralChar, Char.isAlphanum, h]

/-- No separator is such a character. -/
lemma ne_separator_of_isLiteralChar {c : Char} (h : isLiteralChar c = true) :
    c ≠ ',' ∧ c ≠ '[' ∧ c ≠ ']' := by
  refine ⟨?_, ?_, ?_⟩ <;> rintro rfl <;> exact absurd h (by decide)

lemma dropTrailingZeros_subset (digits : List Char) : dropTrailingZeros digits ⊆ digits := by
  intro c hc
  rw [dropTrailingZeros, List.mem_reverse] at hc
  exact List.mem_reverse.mp ((List.dropWhile_suffix _).mem hc)

lemma isDigit_of_mem_decimalDigits {n : Nat} {c : Char} (h : c ∈ decimalDigits n) :
    c.isDigit = true :=
  Nat.isDigit_of_mem_toDigits (by decide) (by decide) h

namespace Decimal

lemma isDigit_of_mem_wholeDigits {d : Decimal} {c : Char} (h : c ∈ d.wholeDigits) :
    c.isDigit = true :=
  isDigit_of_mem_decimalDigits h

lemma isDigit_of_mem_fractionDigits {d : Decimal} {c : Char} (h : c ∈ d.fractionDigits) :
    c.isDigit = true := by
  rw [fractionDigits] at h
  rcases List.mem_append.mp (dropTrailingZeros_subset _ h) with hzero | hdigit
  · rw [List.eq_of_mem_replicate hzero]
    decide
  · exact isDigit_of_mem_decimalDigits hdigit

/-- A decimal is written with digits and a point. -/
lemma text_chars {d : Decimal} {c : Char} (h : c ∈ d.text) : c.isDigit = true ∨ c = '.' := by
  rw [text] at h
  split at h
  · exact Or.inl (isDigit_of_mem_wholeDigits h)
  · rw [List.mem_append, List.mem_cons] at h
    rcases h with hwhole | rfl | hfraction
    · exact Or.inl (isDigit_of_mem_wholeDigits hwhole)
    · exact Or.inr rfl
    · exact Or.inl (isDigit_of_mem_fractionDigits hfraction)

lemma text_ne_nil (d : Decimal) : d.text ≠ [] := by
  have hwhole : d.wholeDigits ≠ [] := Nat.toDigits_ne_nil
  rw [text]
  split
  · exact hwhole
  · simp

end Decimal

lemma dropLeadingZero_subset (text : List Char) : dropLeadingZero text ⊆ text := by
  fun_cases dropLeadingZero text with
  | case1 fraction => exact List.subset_cons_self ..
  | case2 => exact List.Subset.refl _

lemma dropLeadingZero_ne_nil {text : List Char} (h : text ≠ []) : dropLeadingZero text ≠ [] := by
  fun_cases dropLeadingZero text with
  | case1 fraction => simp
  | case2 => exact h

namespace Binary32

/-- **A literal holds no separator**: it is made of letters, digits, points and signs. -/
theorem literal_chars (x : Binary32) : ∀ c ∈ x.literal.toList, isLiteralChar c = true := by
  have htext : ∀ c ∈ (BinaryFormat.single.shortest x.magnitude).text, isLiteralChar c = true := by
    intro c hc
    rcases Decimal.text_chars hc with hdigit | rfl
    · exact isLiteralChar_of_isDigit hdigit
    · decide
  rw [literal]
  split_ifs
  · exact List.all_eq_true.mp (by decide)
  · exact List.all_eq_true.mp (by decide)
  · exact List.all_eq_true.mp (by decide)
  · rw [String.toList_ofList, List.forall_mem_cons]
    exact ⟨by decide, htext⟩
  · rw [String.toList_ofList]
    exact fun c hc => htext c (dropLeadingZero_subset _ hc)

/-- A literal is never empty. -/
theorem literal_ne_empty (x : Binary32) : x.literal ≠ "" := by
  have htext := Decimal.text_ne_nil (BinaryFormat.single.shortest x.magnitude)
  rw [literal]
  split_ifs
  · decide
  · decide
  · decide
  · simp
  · simpa using dropLeadingZero_ne_nil htext

end Binary32

/-! ## Texts of cells -/

/-- What a parameter starts with: its own value, unless a producer drives it. -/
def Param.startText (p : Param) : String :=
  match p.binding with
  | none => p.value.literal
  | some _ => "0"

/-- A text that can be told apart from its neighbours: it is not empty and holds no separator. -/
def IsEntry (text : String) : Prop :=
  text ≠ "" ∧ ∀ c ∈ text.toList, c ≠ ',' ∧ c ≠ '[' ∧ c ≠ ']'

lemma isEntry_zero : IsEntry "0" := by
  simp [IsEntry]

lemma Param.isEntry_startText (p : Param) : IsEntry p.startText := by
  rw [startText]
  split
  · exact ⟨p.value.literal_ne_empty,
      fun c hc => ne_separator_of_isLiteralChar (p.value.literal_chars c hc)⟩
  · exact isEntry_zero

namespace Turn

variable {g : Graph} {modules : List Module} {done rest : List (Module × Node)} {m : Module}
  {n : Node}

/-- Whatever drives a parameter has run earlier, so that no parameter is left blank. -/
lemma paramEntry_eq (h : Turn g modules done m n rest) {p : Param} (hp : p ∈ m.params) :
    paramEntry (.ofModules modules) done.length p = p.startText := by
  rw [paramEntry, Param.startText]
  cases hbinding : p.binding with
  | none => rfl
  | some producer =>
      have hproducer : producer ∈ m.producers :=
        Module.mem_producers_iff.mpr (Or.inr ⟨p, hp, hbinding⟩)
      obtain ⟨q, nq, hq, rfl⟩ := h.exists_producer hproducer
      obtain ⟨before, after, rfl⟩ := List.append_of_mem hq
      have hturn : Turn g modules before q nq (after ++ (m, n) :: rest) :=
        ⟨h.wellFormed, h.schedule, by rw [h.split, List.append_assoc, List.cons_append]⟩
      have hplace := Schedule.position?_of_split h.schedule.nodup hturn.modules_eq
      rw [List.length_map] at hplace
      simp only [hplace, List.length_append, List.length_cons]
      rw [if_neg (by omega)]

/-- What a module writes: a text for each of its parameters, and zeros for the rest. -/
lemma moduleEntries_eq (h : Turn g modules done m n rest) :
    moduleEntries (.ofModules modules) done.length m n =
      m.params.map Param.startText ++ List.replicate (n.workspaceSize + n.outputCount) "0" := by
  have hzeros : n.count - n.paramCount = n.workspaceSize + n.outputCount := by
    rw [Node.count]
    omega
  rw [moduleEntries, hzeros, List.map_congr_left fun p hp => h.paramEntry_eq hp]

lemma paramCount_eq (h : Turn g modules done m n rest) {m' : Module} {n' : Node}
    (hm' : (m', n') ∈ placements modules) : n'.paramCount = m'.params.length := by
  rw [h.params_length hm', eq_ofModule_of_mem hm']
  rfl

/-- What is written before the turn of a module is as long as the ranges before its own. -/
lemma length_entriesFrom_done (h : Turn g modules done m n rest) (s : Schedule) :
    (entriesFrom s 0 done).length = n.start := by
  rw [h.start_eq]
  exact length_entriesFrom s done 0 fun x hx => (h.paramCount_eq (h.placed_of_done hx)).symm

/-- **The texts of a range stand at the cells of the range.** -/
theorem getElem?_entries (h : Turn g modules done m n rest) {j : Nat} (hj : j < n.count) :
    (entries modules (.ofModules modules) (.ofModules modules))[n.start + j]? =
      (m.params.map Param.startText ++
        List.replicate (n.workspaceSize + n.outputCount) "0")[j]? := by
  have hsplit : entriesFrom (.ofModules modules) 0 (placements modules) =
      entriesFrom (.ofModules modules) 0 done ++
        (moduleEntries (.ofModules modules) done.length m n ++
          entriesFrom (.ofModules modules) (done.length + 1) rest) := by
    rw [h.split]
    simp [entriesFrom, List.zipIdx_append]
  have hlength := length_moduleEntries (.ofModules modules) done.length
    (h.paramCount_eq h.placed).symm
  rw [entries_eq, hsplit, ← h.length_entriesFrom_done (.ofModules modules),
    List.getElem?_append_right (by omega), Nat.add_sub_cancel_left,
    List.getElem?_append_left (by omega), h.moduleEntries_eq]

lemma getElem?_entries_param (h : Turn g modules done m n rest) {j : Nat} {p : Param}
    (hp : m.params[j]? = some p) :
    (entries modules (.ofModules modules) (.ofModules modules))[n.paramCell j]? =
      some p.startText := by
  have hj : j < m.params.length := (List.getElem?_eq_some_iff.mp hp).1
  have hcount := h.paramCount_eq h.placed
  have hlt : j < n.count := by
    rw [Node.count]
    omega
  rw [Node.paramCell, h.getElem?_entries hlt, List.getElem?_append_left (by simpa using hj),
    List.getElem?_map, hp]
  rfl

/-- Behind the parameters of a range, every cell starts with zero. -/
lemma getElem?_entries_zero (h : Turn g modules done m n rest) {j : Nat} (hlow : n.paramCount ≤ j)
    (hj : j < n.count) :
    (entries modules (.ofModules modules) (.ofModules modules))[n.start + j]? = some "0" := by
  have hparams : (m.params.map Param.startText).length = n.paramCount := by
    rw [List.length_map, h.paramCount_eq h.placed]
  rw [h.getElem?_entries hj, List.getElem?_append_right (by omega), List.getElem?_replicate,
    if_pos (by rw [Node.count] at hj; omega)]

end Turn

/-! ## The text of all cells -/

namespace Graph

variable {g : Graph} {modules : List Module}

/-- Every text of a cell can be told apart from its neighbours. -/
lemma IsSchedule.isEntry_of_mem (hs : g.IsSchedule modules) (hg : g.WellFormed) {text : String}
    (htext : text ∈ entries modules (.ofModules modules) (.ofModules modules)) :
    IsEntry text := by
  obtain ⟨cell, hcell⟩ := List.mem_iff_getElem?.mp htext
  have hlt : cell < span (placements modules) := by
    rw [← size_ofModules, ← length_entries hg hs]
    exact (List.getElem?_eq_some_iff.mp hcell).1
  obtain ⟨m, n, hplaced, hlow, hhigh⟩ := exists_placement_of_cell (List.append_nil _).symm hlt
  obtain ⟨done, rest, hsplit⟩ := List.append_of_mem hplaced
  have turn : Turn g modules done m n rest := ⟨hg, hs, hsplit⟩
  obtain ⟨j, rfl⟩ := Nat.exists_eq_add_of_le hlow
  rw [Node.stop] at hhigh
  rw [turn.getElem?_entries (by omega)] at hcell
  rcases List.mem_append.mp (List.mem_of_getElem? hcell) with hparam | hzero
  · obtain ⟨p, -, rfl⟩ := List.mem_map.mp hparam
    exact p.isEntry_startText
  · rw [List.eq_of_mem_replicate hzero]
    exact isEntry_zero

/-- **The texts that the cells of a patch start with.**  There is one for every cell, and the values
are the array literal of all of them.  At the cell of a parameter stands what the parameter starts
with, at every other cell a zero, and every text can be told apart from its neighbours. -/
structure StartsWith (g : Graph) (patch : Patch) (texts : List String) : Prop where
  values : patch.values = "[" ++ ",".intercalate texts ++ "]"
  length : texts.length = patch.stateSize
  param : ∀ id m n j p, g.get? id = some m → patch.layout.get? id = some n →
    m.params[j]? = some p → texts[n.paramCell j]? = some p.startText
  zero : ∀ id n role cell, patch.layout.get? id = some n → n.cell? role = some cell →
    (∀ j, role ≠ .param j) → texts[cell]? = some "0"
  entry : ∀ text ∈ texts, IsEntry text

/-- The initial values that are written down are such texts. -/
lemma IsSchedule.startsWith_entries (hs : g.IsSchedule modules) (hg : g.WellFormed) :
    g.StartsWith (.ofModules modules)
      (entries modules (.ofModules modules) (.ofModules modules)) where
  values := rfl
  length := length_entries hg hs _
  param := by
    intro id m n j p hm hn hp
    obtain ⟨m', hplaced, rfl⟩ := (layout_get?_eq_some_iff hs.nodup).mp hn
    obtain ⟨done, rest, hsplit⟩ := List.append_of_mem hplaced
    have turn : Turn g modules done m' n rest := ⟨hg, hs, hsplit⟩
    cases hm.symm.trans (turn.member turn.placed)
    exact turn.getElem?_entries_param hp
  zero := by
    intro id n role cell hn hcell hrole
    obtain ⟨m, hplaced, rfl⟩ := (layout_get?_eq_some_iff hs.nodup).mp hn
    obtain ⟨done, rest, hsplit⟩ := List.append_of_mem hplaced
    have turn : Turn g modules done m n rest := ⟨hg, hs, hsplit⟩
    have hat := Node.cell?_eq_some_iff.mp hcell
    obtain ⟨hlow, hhigh⟩ := Node.exists_role?_iff.mp ⟨role, hat⟩
    -- a cell among the parameters would have the use of one
    have hbehind : n.start + n.paramCount ≤ cell := by
      by_contra hlt
      rw [Node.role?, if_neg (by omega), if_pos (by omega)] at hat
      exact hrole _ (Option.some.inj hat).symm
    obtain ⟨j, rfl⟩ := Nat.exists_eq_add_of_le hlow
    rw [Node.stop] at hhigh
    exact turn.getElem?_entries_zero (by omega) (by omega)
  entry := fun _ => hs.isEntry_of_mem hg

/-- **The initial values of a patch, cell by cell.**  In a graph that compiles, the values are an
array literal of as many texts as the state array has cells.

* The text at the cell of a parameter is the literal of its value, or zero if a producer drives it;
  the texts at the cells of workspaces and outputs are zeros.
* No text is empty or holds a comma or a bracket, so that cutting what stands between the brackets
  at its commas gives back the texts. -/
theorem initial_values_exact (hg : g.Reachable) {patch : Patch} (hpatch : g.compile = .ok patch) :
    ∃ texts : List String,
      patch.values = "[" ++ ",".intercalate texts ++ "]" ∧ texts.length = patch.stateSize ∧
      (∀ id ∈ patch.schedule.order, ∃ m n, g.get? id = some m ∧ patch.layout.get? id = some n ∧
        n.paramCount = m.params.length ∧
        (∀ j p, m.params[j]? = some p → texts[n.paramCell j]? = some p.startText) ∧
        (∀ j < n.workspaceSize, texts[n.workspaceCell + j]? = some "0") ∧
        ∀ cell, n.outputCell? = some cell →
          ∀ c < n.outChannels, texts[cell + c]? = some "0") ∧
      (∀ text ∈ texts, text ≠ "" ∧ ∀ c ∈ text.toList, c ≠ ',' ∧ c ≠ '[' ∧ c ≠ ']') ∧
      (0 < patch.stateSize → ∀ body, patch.values = "[" ++ body ++ "]" →
        (body.split ',').toList.map (·.copy) = texts) := by
  have hwf := hg.wellFormed
  obtain ⟨modules, hmodules, rfl⟩ := compile_eq_ok_iff.mp hpatch
  have hs := (scheduled_spec hwf.id_eq).1 modules hmodules
  have hlength := length_entries hwf hs (.ofModules modules)
  have hentry : ∀ text ∈ entries modules (.ofModules modules) (.ofModules modules), IsEntry text :=
    fun _ => hs.isEntry_of_mem hwf
  refine ⟨entries modules (.ofModules modules) (.ofModules modules), rfl, hlength, ?_, hentry, ?_⟩
  · intro id hid
    obtain ⟨k, hk⟩ := List.mem_iff_getElem?.mp hid
    obtain ⟨done, m, n, rest, turn, -, rfl, -⟩ := hs.exists_turn hwf hk
    refine ⟨m, n, turn.member turn.placed, get?_ofModules hs.nodup turn.placed,
      turn.paramCount_eq turn.placed, fun j p hp => turn.getElem?_entries_param hp, ?_, ?_⟩
    · intro j hj
      rw [Node.workspaceCell, Nat.add_assoc]
      exact turn.getElem?_entries_zero (by omega) (by rw [Node.count]; omega)
    · intro cell hcell c hc
      rw [Node.outputCell?] at hcell
      split_ifs at hcell with hbuffered
      cases hcell
      rw [Nat.add_assoc, Nat.add_assoc]
      refine turn.getElem?_entries_zero (by omega) ?_
      rw [Node.count, Node.outputCount, if_pos hbuffered]
      omega
  · intro hpos body hbody
    have hcut : body = (String.singleton ',').intercalate
        (entries modules (.ofModules modules) (.ofModules modules)) :=
      (String.append_right_inj _).mp ((String.append_left_inj _).mp hbody.symm)
    have hne : entries modules (.ofModules modules) (.ofModules modules) ≠ [] := by
      rw [← List.length_pos_iff, hlength]
      exact hpos
    rw [hcut, String.toList_split_intercalate, if_neg hne]
    intro text htext hcomma
    exact ((hentry text htext).2 ',' hcomma).1 rfl

/-- The demo patch with its oscillator at a half, its pan at minus a quarter, and ten for the gain
that the second oscillator drives. -/
def demoTuned : Graph :=
  demo.applyAll [.setParam ⟨1⟩ "freq" ⟨0x3F000000⟩, .setParam ⟨2⟩ "pos" ⟨0xBE800000⟩,
    .setParam ⟨4⟩ "gain" ⟨0x41200000⟩]

/-- The cell of the gain starts with zero and not with ten, and the eight texts can be cut apart. -/
theorem initial_values_exact_demo :
    ∃ patch texts, demoTuned.compile = .ok patch ∧ patch.stateSize = 8 ∧
      patch.values = "[.5,0,-0.25,0,0,0,0,0]" ∧ texts.length = 8 ∧ texts[7]? = some "0" ∧
      (".5,0,-0.25,0,0,0,0,0".split ',').toList.map (·.copy) = texts := by
  have hlayout : demoTuned.compile.toOption.map (fun patch => (patch.schedule.order,
      patch.layout.nodes, patch.values)) = some ([⟨1⟩, ⟨2⟩, ⟨3⟩, ⟨4⟩, .sink], demoNodes,
        "[.5,0,-0.25,0,0,0,0,0]") := by decide +kernel
  obtain ⟨patch, hpatch, heq⟩ := exists_ok_of_map hlayout
  simp only [Prod.mk.injEq] at heq
  obtain ⟨horder, hnodes, hvalues⟩ := heq
  have hsize : patch.stateSize = 8 := by
    rw [Patch.stateSize, Layout.size, hnodes]
    rfl
  obtain ⟨texts, -, hlength, hcells, -, hcut⟩ :=
    initial_values_exact (demo_reachable.applyAll _) hpatch
  obtain ⟨m, n, hm, hn, -, hparams, -⟩ := hcells ⟨4⟩ (by simp [horder])
  have hgain : (demoTuned.get? ⟨4⟩).map (·.params) =
      some [⟨"gain", ⟨0x41200000⟩, some ⟨3⟩⟩] := by decide +kernel
  rw [demoTuned, hm, Option.map_some, Option.some.injEq] at hgain
  have hstart : n.start = 7 := by
    rw [Layout.get?, hnodes] at hn
    cases hn
    rfl
  refine ⟨patch, texts, hpatch, hsize, hvalues, hlength.trans hsize, ?_, ?_⟩
  · have hcell := hparams 0 _ (by rw [hgain]; rfl)
    rw [Node.paramCell, hstart] at hcell
    exact hcell
  · exact hcut (by omega) _ (by rw [hvalues]; rfl)

end Graph

end Patchbay
