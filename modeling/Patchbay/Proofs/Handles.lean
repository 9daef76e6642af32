import Patchbay.Proofs.WellFormed
import Mathlib.Data.List.Induction

/-!
# Handles

A handle is given out when a module is added and taken back when the module is removed.  What it
stands for in between is a matter of the whole history of a graph, so a run of edits is read here as
a ledger with two columns.

* `Graph.issued`, `Graph.withdrawn` — **the two columns**: the handles that the calls of a run
  return, and those of the modules that it removes.
* `Graph.Ledger` — what a graph owes to its history, and `Graph.Ledger.next`: an edit keeps it.
* `Graph.apply_of_stranger` — an edit is refused for a handle that has no module.
* `Graph.handles_never_alias` — **a handle stands for one module for ever.**
-/

namespace Patchbay.Graph

variable {g h : Graph} {e : Edit} {id : ModuleId} {name : String}

/-! ## The ledger of a run -/

/-- The handle that an edit gives out: that of the module which it adds. -/
def issue? (g : Graph) : Edit → Option ModuleId
  | .add definition => (g.addModule definition).toOption.map (·.1)
  | _ => none

/-- The handle that an edit takes back: that of the module which it removes. -/
def withdrawal? (g : Graph) : Edit → Option ModuleId
  | .remove id => (g.remove id).toOption.map fun _ => id
  | _ => none

/-- What the edits of a run report, each of them about the graph that it finds. -/
def reports (report : Graph → Edit → Option ModuleId) (g : Graph) : List Edit → List ModuleId
  | [] => []
  | e :: edits => (report g e).toList ++ reports report (g.next e) edits

/-- The handles that a run gives out, in the order of its calls. -/
def issued (g : Graph) (edits : List Edit) : List ModuleId := reports issue? g edits

/-- The handles that a run takes back. -/
def withdrawn (g : Graph) (edits : List Edit) : List ModuleId := reports withdrawal? g edits

lemma applyAll_concat (g : Graph) (edits : List Edit) (e : Edit) :
    g.applyAll (edits ++ [e]) = (g.applyAll edits).next e := by
  rw [applyAll, List.foldl_concat]
  rfl

/-- What a run reports and what the run after it reports. -/
lemma reports_append (report : Graph → Edit → Option ModuleId) (edits later : List Edit) :
    ∀ g : Graph, reports report g (edits ++ later) =
      reports report g edits ++ reports report (g.applyAll edits) later := by
  induction edits with
  | nil =>
      intro g
      rfl
  | cons e edits ih =>
      intro g
      rw [List.cons_append, reports, reports, ih (g.next e), List.append_assoc]
      rfl

lemma reports_concat (report : Graph → Edit → Option ModuleId) (edits : List Edit) (e : Edit)
    (g : Graph) : reports report g (edits ++ [e]) =
      reports report g edits ++ (report (g.applyAll edits) e).toList := by
  rw [reports_append, reports, reports, List.append_nil]

/-! ## Who is there after an edit -/

lemma contains_push (m : Module) :
    ({ g with arena := g.arena.push (some m) } : Graph).contains id = true ↔
      id = g.nextId ∨ g.contains id = true := by
  rw [contains, contains, get?_push]
  split_ifs with hid
  · simp [hid]
  · simp [hid]

lemma contains_without {other : ModuleId} :
    (g.without other).contains id = true ↔ g.contains id = true ∧ id ≠ other := by
  rw [contains, contains, get?_without]
  split_ifs with hid
  · simp [hid]
  · simp [hid]

lemma contains_modifyModule (other : ModuleId) (change : Module → Module) (id : ModuleId) :
    (g.modifyModule other change).contains id = g.contains id := by
  rw [contains, contains, get?_modifyModule]
  split_ifs
  · simp
  · rfl

/-- An edit that neither adds nor removes a module changes nothing about who is there. -/
lemma contains_next (hadd : e.isAdd = false) (hremove : ∀ target, e ≠ .remove target) :
    (g.next e).arena.size = g.arena.size ∧ ∀ id, (g.next e).contains id = g.contains id := by
  cases he : g.apply e with
  | error _ =>
      rw [next_of_error he]
      exact ⟨rfl, fun _ => rfl⟩
  | ok h =>
      rw [next_of_ok he]
      cases outcome_of_apply he with
      | added _ => simp [Edit.isAdd] at hadd
      | removed _ => exact absurd rfl (hremove _)
      | renamed => exact ⟨rfl, fun _ => rfl⟩
      | modified => exact ⟨by simp [modifyModule], contains_modifyModule _ _⟩

/-! ## What a graph owes to its history -/

/-- **What a graph owes to its history.**  The handles given out are 1, 2, 3 and so on, one for each
place of the arena behind that of the sink.  Those taken back are among them, and a handle has a
module exactly if it is that of the sink or was given out, and was not taken back. -/
structure Ledger (g : Graph) (issued withdrawn : List ModuleId) : Prop where
  issued_eq : issued = (List.range' 1 issued.length).map ModuleId.mk
  size_eq : g.arena.size = issued.length + 1
  withdrawn_issued : ∀ id ∈ withdrawn, id ∈ issued
  contains_iff : ∀ id, g.contains id = true ↔ (id = .sink ∨ id ∈ issued) ∧ id ∉ withdrawn

variable {issued withdrawn : List ModuleId}

lemma Ledger.mem_issued_iff (hl : Ledger g issued withdrawn) :
    id ∈ issued ↔ 1 ≤ id.index ∧ id.index < g.arena.size := by
  have hid : (∃ k, (1 ≤ k ∧ k < 1 + issued.length) ∧ ModuleId.mk k = id) ↔
      1 ≤ id.index ∧ id.index < 1 + issued.length := by
    constructor
    · rintro ⟨k, hk, rfl⟩
      exact hk
    · intro hk
      exact ⟨id.index, hk, rfl⟩
  rw [hl.issued_eq, List.mem_map]
  simp only [List.mem_range'_1]
  rw [hid, hl.size_eq, Nat.add_comm]

lemma ledger_new {c : Catalog} (hnew : Graph.new c = .ok g) : Ledger g [] [] := by
  obtain ⟨d, -, rfl⟩ := new_eq_ok_iff.mp hnew
  refine ⟨rfl, rfl, by simp, ?_⟩
  rintro ⟨k⟩
  cases k with
  | zero => simp [contains, get?, ModuleId.sink]
  | succ k => simp [contains, get?, ModuleId.sink]

/-- A module is added under the handle after the last one, which was never given out before. -/
lemma Ledger.add (hl : Ledger g issued withdrawn) (definition : String) :
    Ledger (g.next (.add definition)) (issued ++ (g.issue? (.add definition)).toList)
      withdrawn := by
  cases hadd : g.add definition with
  | error error =>
      have hissue : g.issue? (.add definition) = none := by
        simp [issue?, addModule, hadd, bind, Except.bind, Except.toOption]
      rw [next_of_error (e := .add definition) hadd, hissue]
      simpa using hl
  | ok h =>
      have hissue : g.issue? (.add definition) = some g.nextId := by
        simp [issue?, addModule, hadd, bind, Except.bind, pure, Except.pure, Except.toOption]
      have hnew : g.nextId ∉ issued := by
        rw [hl.mem_issued_iff]
        simp [nextId]
      have hnext : g.nextId = ⟨1 + issued.length⟩ := by rw [nextId, hl.size_eq, Nat.add_comm]
      rw [next_of_ok (e := .add definition) hadd, hissue, Option.toList_some]
      obtain ⟨d, -, rfl⟩ := add_eq_ok_iff.mp hadd
      refine ⟨?_, ?_, ?_, ?_⟩
      · rw [List.length_append, List.length_singleton, List.range'_concat, List.map_append,
          ← hl.issued_eq, hnext]
        simp
      · simp [hl.size_eq]
      · intro id hid
        exact List.mem_append_left _ (hl.withdrawn_issued id hid)
      · intro id
        rw [contains_push, hl.contains_iff, List.mem_append, List.mem_singleton]
        constructor
        · rintro (rfl | ⟨hid, hkept⟩)
          · exact ⟨Or.inr (Or.inr rfl), fun hid => hnew (hl.withdrawn_issued _ hid)⟩
          · exact ⟨hid.imp_right Or.inl, hkept⟩
        · rintro ⟨hsink | hid | hid, hkept⟩
          · exact Or.inr ⟨Or.inl hsink, hkept⟩
          · exact Or.inr ⟨Or.inr hid, hkept⟩
          · exact Or.inl hid

/-- The handle of a removed module was given out, for it is not that of the sink. -/
lemma Ledger.remove (hl : Ledger g issued withdrawn) (target : ModuleId) :
    Ledger (g.next (.remove target)) issued
      (withdrawn ++ (g.withdrawal? (.remove target)).toList) := by
  cases hremove : g.remove target with
  | error error =>
      have hwithdrawal : g.withdrawal? (.remove target) = none := by
        simp [withdrawal?, hremove, Except.toOption]
      rw [next_of_error (e := .remove target) hremove, hwithdrawal]
      simpa using hl
  | ok h =>
      have hwithdrawal : g.withdrawal? (.remove target) = some target := by
        simp [withdrawal?, hremove, Except.toOption]
      rw [next_of_ok (e := .remove target) hremove, hwithdrawal, Option.toList_some]
      obtain ⟨hmember, hsink, rfl⟩ := remove_eq_ok_iff.mp hremove
      have hissued : target ∈ issued :=
        ((hl.contains_iff target).mp (Graph.contains_iff.mpr hmember)).1.resolve_left hsink
      refine ⟨hl.issued_eq, by simp [without, hl.size_eq], ?_, ?_⟩
      · intro id hid
        rw [List.mem_append, List.mem_singleton] at hid
        rcases hid with hid | rfl
        · exact hl.withdrawn_issued id hid
        · exact hissued
      · intro id
        rw [contains_without, hl.contains_iff, List.mem_append, List.mem_singleton, not_or,
          and_assoc]

/-- **An edit keeps the ledger**, with what it gives out and what it takes back. -/
theorem Ledger.next (hl : Ledger g issued withdrawn) (e : Edit) :
    Ledger (g.next e) (issued ++ (g.issue? e).toList) (withdrawn ++ (g.withdrawal? e).toList) := by
  have hother : e.isAdd = false → (∀ target, e ≠ .remove target) →
      Ledger (g.next e) issued withdrawn := by
    intro hadd hremove
    obtain ⟨hsize, hcontains⟩ := contains_next (g := g) hadd hremove
    exact ⟨hl.issued_eq, hsize.trans hl.size_eq, hl.withdrawn_issued, fun id => by
      rw [hcontains]; exact hl.contains_iff id⟩
  cases e with
  | add definition => simpa [withdrawal?] using hl.add definition
  | remove target => simpa [issue?] using hl.remove target
  | _ => simpa [issue?, withdrawal?] using hother rfl (by simp)

/-- **A run keeps the ledger.** -/
theorem ledger_applyAll {c : Catalog} (hnew : Graph.new c = .ok g) (edits : List Edit) :
    Ledger (g.applyAll edits) (g.issued edits) (g.withdrawn edits) := by
  induction edits using List.reverseRecOn with
  | nil => exact ledger_new hnew
  | append_singleton edits e ih =>
      have hstep := ih.next e
      rw [← applyAll_concat, Graph.issued, Graph.withdrawn, ← reports_concat, ← reports_concat]
        at hstep
      exact hstep

/-- A run gives out no more handles than it has calls to add a module. -/
lemma length_issued_le (edits : List Edit) :
    ∀ g : Graph, (g.issued edits).length ≤ edits.countP Edit.isAdd := by
  induction edits with
  | nil =>
      intro g
      exact Nat.le_refl 0
  | cons e edits ih =>
      intro g
      have hone : (g.issue? e).toList.length ≤ if e.isAdd then 1 else 0 := by
        cases e with
        | add definition => exact Option.length_toList_le
        | _ => simp [issue?]
      have hrest := ih (g.next e)
      rw [Graph.issued] at hrest ⊢
      rw [reports, List.length_append, List.countP_cons]
      omega

/-! ## Handles without a module -/

/-- The handles that an edit names, in the order in which they are looked up. -/
def Edit.handles : Edit → List ModuleId
  | .add _ | .setName _ => []
  | .remove id | .rename id _ | .setParam id _ _ => [id]
  | .connect source target | .connectParam source target _ => [source, target]
  | .disconnect target | .disconnectParam target _ => [target]

lemma get_of_stranger (hid : g.contains id = false) : g.get id = .error (.notMember id) := by
  have hnone : g.get? id = none := by simpa [contains] using hid
  rw [get, hnone]

/-- A connection is refused for the end that has no module, if the other end has one. -/
lemma endpoints_of_stranger {source target : ModuleId} (hid : g.contains id = false)
    (hnamed : id ∈ [source, target])
    (hother : ∀ other ∈ [source, target], other ≠ id → g.contains other = true) :
    g.endpoints source target = .error (.notMember id) := by
  by_cases hsource : source = id
  · rw [endpoints, hsource, get_of_stranger hid]
    rfl
  · obtain ⟨m, hm⟩ := contains_iff.mp (hother source (by simp) hsource)
    obtain rfl : id = target := by simpa [Ne.symm hsource] using hnamed
    rw [endpoints, get_eq_ok_iff.mpr hm, get_of_stranger hid]
    rfl

/-- **An edit is refused for a handle that has no module**, if the other handles it names have
one. -/
theorem apply_of_stranger (hid : g.contains id = false) (hnamed : id ∈ e.handles)
    (hother : ∀ other ∈ e.handles, other ≠ id → g.contains other = true) :
    g.apply e = .error (.notMember id) := by
  have hget := get_of_stranger hid
  cases e with
  | add definition => simp [Edit.handles] at hnamed
  | setName name => simp [Edit.handles] at hnamed
  | remove target =>
      obtain rfl : id = target := by simpa [Edit.handles] using hnamed
      rw [apply, Graph.remove, hget]
      rfl
  | rename target name =>
      obtain rfl : id = target := by simpa [Edit.handles] using hnamed
      rw [apply, rename, hget]
      rfl
  | setParam target param value =>
      obtain rfl : id = target := by simpa [Edit.handles] using hnamed
      rw [apply, setParam, resolveParam, hget]
      rfl
  | disconnect target =>
      obtain rfl : id = target := by simpa [Edit.handles] using hnamed
      rw [apply, disconnect, hget]
      rfl
  | disconnectParam target param =>
      obtain rfl : id = target := by simpa [Edit.handles] using hnamed
      rw [apply, disconnectParam, resolveParam, hget]
      rfl
  | connect source target =>
      rw [apply, connect, endpoints_of_stranger hid hnamed hother]
      rfl
  | connectParam source target param =>
      rw [apply, connectParam, endpoints_of_stranger hid hnamed hother]
      rfl

/-! ## Handles for ever -/

/-- The sink is listed first. -/
lemma WellFormed.head?_modules (hg : g.WellFormed) :
    g.modules.head?.map (·.id) = some .sink := by
  obtain ⟨m, hm, -⟩ := hg.sink
  have hfirst : g.arena.toList[0]? = some (some m) := by simpa using get?_eq_some_iff.mp hm
  cases harena : g.arena.toList with
  | nil => simp [harena] at hfirst
  | cons x rest =>
      rw [harena, List.getElem?_cons_zero] at hfirst
      cases hfirst
      rw [modules, harena, List.reduceOption_cons_of_some, List.head?_cons, Option.map_some,
        hg.id_eq _ _ hm]

/-- The handles of the modules that are listed are those that have a module. -/
lemma WellFormed.mem_map_id_modules (hg : g.WellFormed) :
    id ∈ g.modules.map (·.id) ↔ g.contains id = true := by
  rw [contains_iff, List.mem_map]
  constructor
  · rintro ⟨m, hm, rfl⟩
    exact ⟨m, (mem_modules_iff hg).mp hm⟩
  · rintro ⟨m, hm⟩
    obtain rfl := hg.id_eq id m hm
    exact ⟨m, (mem_modules_iff hg).mpr hm, rfl⟩

/-- **A handle stands for one module for ever.**  Take a graph opened on any catalog, and any run of
edits, refused ones included.

* The handles that the run returns are 1, 2, 3 and so on, and there are no more of them than calls
  to add a module.
* A handle has a module exactly if it is that of the sink or was returned, and its module was not
  removed.
* Once its module was removed, and whatever edits follow, a handle never has a module again, no slot
  is bound to it, and every edit and query that names it is refused for it.
* The modules are listed in strictly ascending order of their handles, the sink first. -/
theorem handles_never_alias {c : Catalog} (hc : c.Reachable) {g₀ : Graph}
    (hnew : Graph.new c = .ok g₀) (edits : List Edit) :
    (g₀.issued edits = (List.range' 1 (g₀.issued edits).length).map ModuleId.mk ∧
      (g₀.issued edits).length ≤ edits.countP Edit.isAdd) ∧
    (∀ id, (g₀.applyAll edits).contains id = true ↔
      (id = .sink ∨ id ∈ g₀.issued edits) ∧ id ∉ g₀.withdrawn edits) ∧
    (∀ id ∈ g₀.withdrawn edits, ∀ (later : List Edit) (g : Graph),
      g = g₀.applyAll (edits ++ later) →
      g.contains id = false ∧
      (∀ other m, g.get? other = some m →
        m.mainInput ≠ some id ∧ ∀ param ∈ m.params, param.binding ≠ some id) ∧
      (∀ e : Edit, id ∈ e.handles →
        (∀ other ∈ e.handles, other ≠ id → g.contains other = true) →
        g.apply e = .error (.notMember id)) ∧
      g.mainInput id = .error (.notMember id) ∧
      (∀ param, g.param id param = .error (.notMember id) ∧
        g.paramBinding id param = .error (.notMember id))) ∧
    (((g₀.applyAll edits).modules.map (·.id.index)).Pairwise (· < ·) ∧
      (g₀.applyAll edits).modules.head?.map (·.id) = some .sink ∧
      ∀ id, id ∈ (g₀.applyAll edits).modules.map (·.id) ↔
        (g₀.applyAll edits).contains id = true) := by
  have hl := ledger_applyAll hnew edits
  have hwf := (wellFormed_applyAll hc hnew edits).1
  refine ⟨⟨hl.issued_eq, length_issued_le edits g₀⟩, hl.contains_iff, ?_,
    hwf.modules_sorted, hwf.head?_modules, fun id => hwf.mem_map_id_modules⟩
  rintro id hid later g rfl
  have hlater := ledger_applyAll hnew (edits ++ later)
  have hwithdrawn : id ∈ g₀.withdrawn (edits ++ later) := by
    rw [Graph.withdrawn, reports_append]
    exact List.mem_append_left _ hid
  have hgone : (g₀.applyAll (edits ++ later)).contains id = false := by
    rw [← Bool.not_eq_true, hlater.contains_iff]
    exact fun hmember => hmember.2 hwithdrawn
  have hget := get_of_stranger hgone
  refine ⟨hgone, ?_, fun e => apply_of_stranger hgone, ?_, fun param => ⟨?_, ?_⟩⟩
  · intro other m hm
    have hunbound : id ∉ m.producers := by
      intro hp
      obtain ⟨q, hq, -⟩ :=
        (wellFormed_applyAll hc hnew (edits ++ later)).1.exists_of_mem_producers hm hp
      rw [contains_iff.mpr ⟨q, hq⟩] at hgone
      cases hgone
    simpa [Module.producers, Option.mem_toList] using hunbound
  · rw [Graph.mainInput, hget]
    rfl
  · rw [Graph.param, hget]
    rfl
  · rw [Graph.paramBinding, hget]
    rfl

/-- The demo patch has given out five handles and taken back the last of them.  The next module gets
the sixth, and the fifth stays without one. -/
theorem handles_never_alias_demo :
    demoStart.issued demoEdits = [⟨1⟩, ⟨2⟩, ⟨3⟩, ⟨4⟩, ⟨5⟩] ∧
    demoStart.withdrawn demoEdits = [⟨5⟩] ∧
    demoStart.issued (demoEdits ++ [.add "Pan"]) = [⟨1⟩, ⟨2⟩, ⟨3⟩, ⟨4⟩, ⟨5⟩, ⟨6⟩] ∧
    (demoStart.applyAll (demoEdits ++ [.add "Pan"])).contains ⟨5⟩ = false ∧
    (demoStart.applyAll (demoEdits ++ [.add "Pan"])).apply (.connect ⟨1⟩ ⟨5⟩) =
      .error (.notMember ⟨5⟩) := by
  have hwithdrawn : demoStart.withdrawn demoEdits = [⟨5⟩] := by decide +kernel
  have hc : Catalog.Reachable (Catalog.withSink.fillAll demoFillings) :=
    ⟨.withSink, demoFillings, Or.inr rfl, rfl⟩
  obtain ⟨-, -, hgone, -⟩ := handles_never_alias hc new_demo demoEdits
  obtain ⟨hcontains, -, hrefused, -⟩ := hgone ⟨5⟩ (by simp [hwithdrawn]) [.add "Pan"] _ rfl
  refine ⟨by decide +kernel, hwithdrawn, by decide +kernel, hcontains, ?_⟩
  exact hrefused _ (by simp [Edit.handles]) (by decide +kernel)

end Patchbay.Graph
