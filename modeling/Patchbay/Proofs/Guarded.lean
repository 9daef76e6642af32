import Patchbay.Guarded.Edit
import Patchbay.Proofs.Outcomes
import Mathlib.Data.List.ReduceOption

/-!
# Edits and queries come to no breach

An edit runs step by step on a graph in place, with a guard before every access by place.  Here it
is followed through its steps: it checks all its conditions before it writes, and all places that it
reaches for are there.  So it does what `Graph.apply` says, reports it, and leaves the graph alone
when it is refused.

* `Call.perform_check_bind` and its siblings — calls, one step at a time.
* `Guarded.settled` — **what comes of an edit** that is refused with an error or leads to a graph.
* `Guarded.clearAll_eq` — the slots that a removal frees, and their number.
* `Guarded.perform_apply`, `Guarded.paramBinding_eq` — **no edit and no query comes to a breach.**
* `Graph.next_of_ok`, `Graph.next_of_error` — the graph after an edit.
-/

namespace Patchbay

/-! ## Calls -/

namespace Call

variable {σ ε α β : Type}

lemma perform_get_bind (f : σ → Call σ ε α) (s : σ) : (get >>= f).perform s = (f s).perform s := rfl

lemma perform_set_bind (s' : σ) (f : PUnit → Call σ ε α) (s : σ) :
    (set s' >>= f).perform s = (f ⟨⟩).perform s' := rfl

lemma perform_check_bind (x : Except ε α) (f : α → Call σ ε β) (s : σ) :
    (check x >>= f).perform s =
      match x with
      | .ok a => (f a).perform s
      | .error e => (.error e, s) := by
  cases x <;> rfl

/-- A call is followed by what comes next, on the state that it leaves behind. -/
lemma perform_bind (call : Call σ ε α) (f : α → Call σ ε β) (s : σ) :
    (call >>= f).perform s =
      match call.perform s with
      | (.ok a, s') => (f a).perform s'
      | (.error e, s') => (.error e, s') := by
  rw [perform, perform, ExceptT.run_bind, StateT.run_bind]
  change (match (call.run.run s).1 with
    | .ok a => (f a).run
    | .error e => pure (Except.error e)).run (call.run.run s).2 = _
  cases call.run.run s with
  | mk result s' => cases result <;> rfl

end Call

section

variable {α β : Type}

@[simp] lemma plain_ok (a : α) : plain (.ok a) = .ok a := rfl

/-- What succeeds is followed by what comes next. -/
@[simp] lemma ok_bind (a : α) (f : α → Except Failure β) : Except.ok a >>= f = f a := rfl

lemma plain_bind (x : Except GraphError α) (f : α → Except GraphError β) :
    plain (x >>= f) = plain x >>= fun a => plain (f a) := by
  cases x <;> rfl

end

/-! ## What an edit reports -/

/-- How many slots of the graph are bound to a producer. -/
def Graph.referenceCount (g : Graph) (producer : ModuleId) : Nat :=
  (g.modules.flatMap (·.producers)).count producer

/-- The event of an edit that succeeds on a graph; changes of names and values report none. -/
def Graph.successEvent? (g : Graph) : Graph.Edit → Option Event
  | .add definition => (g.catalog.get? definition).map fun d => .added (.instantiate g.nextId d)
  | .remove id => some (.removed id (g.referenceCount id))
  | .connect source target => some (.connected source target)
  | .connectParam source target param => some (.paramConnected source target param)
  | .disconnect target => some (.disconnected target)
  | .disconnectParam target param => some (.paramDisconnected target param)
  | .rename .. | .setName .. | .setParam .. => none

namespace Guarded

variable {α : Type} {g : Graph} {id : ModuleId} {m : Module} {report : Option Event}

/-- **What comes of an edit**: it reports and leaves the changed graph behind, or it is refused and
leaves the graph as it was. -/
def settled (g : Graph) (report : Option Event) :
    Except GraphError Graph → Except Failure (Option Event) × Graph
  | .ok h => (.ok report, h)
  | .error x => (.error (.refused x), g)

/-- A condition that is checked while the graph is still as it was. -/
lemma perform_ask_bind {x : Except GraphError α} {f : α → EditCall}
    {f' : α → Except GraphError Graph}
    (h : ∀ a, x = .ok a → (f a).perform g = settled g report (f' a)) :
    (ask x >>= f).perform g = settled g report (x >>= f') := by
  cases x with
  | error e => rfl
  | ok a => exact h a rfl

/-! ## Steps of edits -/

lemma reach_eq_ok {xs : List α} {k : Nat} {a : α} (h : xs[k]? = some a) : reach xs k = .ok a := by
  rw [reach, h]

/-- A module that is there is changed as it is without guards. -/
lemma perform_modify (hm : g.get? id = some m) {change : Module → Except Failure Module}
    {change' : Module → Module} (h : change m = .ok (change' m)) :
    (modify id change).perform g = (.ok (), g.modifyModule id change') := by
  rw [modify, Call.perform_get_bind, Graph.get_eq_ok_iff.mpr hm, ask, Call.perform_check_bind]
  simp only [plain_ok, Call.perform_check_bind, h]
  refine congrArg (Except.ok (), ·) (Graph.modifyModule_congr fun m' hm' => ?_)
  cases hm.symm.trans hm'
  rfl

/-- A change of a module is the last step of an edit. -/
lemma perform_modify_return (hm : g.get? id = some m) {change : Module → Except Failure Module}
    {change' : Module → Module} (h : change m = .ok (change' m)) (report : Option Event) :
    (do modify id change; return report : EditCall).perform g =
      settled g report (.ok (g.modifyModule id change')) := by
  rw [Call.perform_bind, perform_modify hm h]
  rfl

/-- The place that a name has leads to a parameter. -/
lemma exists_reach {param : String} {k : Nat} (h : m.paramIndex? param = some k) :
    ∃ q, reach m.params k = .ok q ∧ m.param? param = some q ∧ m.params[k]? = some q := by
  rcases Module.param?_of_paramIndex? h with ⟨q, hq, -, hparam⟩
  exact ⟨q, reach_eq_ok hq, hparam, hq⟩

lemma setValue_eq {param : String} {k : Nat} (h : m.paramIndex? param = some k)
    (value : Binary32) : setValue m k value = .ok (m.setValue k value) := by
  rcases exists_reach h with ⟨q, hq, -⟩
  rw [setValue, hq]
  rfl

lemma setBinding_eq {param : String} {k : Nat} (h : m.paramIndex? param = some k)
    (producer : Option ModuleId) : setBinding m k producer = .ok (m.setBinding k producer) := by
  rcases exists_reach h with ⟨q, hq, -⟩
  rw [setBinding, hq]
  rfl

/-! ## What a removal clears -/

lemma clearParams_eq (target : ModuleId) : ∀ params : List Param, Module.clearParams target params =
    (params.map fun p => { p with binding := Module.release target p.binding },
      (params.filterMap (·.binding)).count target)
  | [] => rfl
  | ⟨name, value, none⟩ :: params => by
      rw [Module.clearParams, clearParams_eq target params]
      rfl
  | ⟨name, value, some producer⟩ :: params => by
      rw [Module.clearParams, clearParams_eq target params]
      by_cases h : producer = target
      · simp [Module.release, h]
      · simp [Module.release, h]

/-- The slots that are freed are those that list the producer. -/
lemma clear_eq (m : Module) (target : ModuleId) :
    m.clear target = (m.clearReferences target, m.producers.count target) := by
  simp only [Module.clear, clearParams_eq, Module.clearReferences, Module.producers,
    List.count_append]
  cases m.mainInput with
  | none => simp [Module.release]
  | some producer =>
      by_cases h : producer = target
      · simp [Module.release, h, Nat.add_comm]
      · simp [Module.release, h]

/-- **What a removal clears**, over all places of an arena. -/
lemma clearAll_eq (target : ModuleId) : ∀ places : List (Option Module), clearAll target places =
    (places.map (Option.map (·.clearReferences target)),
      (places.reduceOption.flatMap (·.producers)).count target)
  | [] => rfl
  | none :: places => by
      rw [clearAll, clearAll_eq target places, List.reduceOption_cons_of_none]
      rfl
  | some m :: places => by
      rw [clearAll, clearAll_eq target places, clear_eq, List.reduceOption_cons_of_some,
        List.flatMap_cons, List.count_append]
      rfl

/-! ## Edits -/

/-- A module lies inside the arena, so that removing it empties a place of the arena. -/
lemma perform_remove (g : Graph) (id : ModuleId) : (remove id).perform g =
    settled g (some (.removed id (g.referenceCount id))) (g.remove id) := by
  rw [remove, Graph.remove, Call.perform_get_bind]
  refine perform_ask_bind fun m hm => perform_ask_bind fun _ _ => ?_
  have hlt := Walk.index_lt_of_get? (Graph.get_eq_ok_iff.mp hm)
  have hcleared : (g.arena.toList.map (Option.map (·.clearReferences id))).toArray =
      g.arena.map (Option.map (·.clearReferences id)) := by
    rw [← Array.toList_map]
  simp only [clearAll_eq, hcleared, Call.perform_set_bind, Call.perform_check_bind, store]
  rw [if_pos (by simpa using hlt)]
  rfl

lemma perform_add (g : Graph) (definition : String) : (add definition).perform g =
    settled g (g.successEvent? (.add definition)) (g.add definition) := by
  rw [add, Graph.add, Call.perform_get_bind]
  refine perform_ask_bind fun d hd => ?_
  rw [Graph.successEvent?, Catalog.lookup_eq_ok_iff.mp hd]
  rfl

lemma perform_rename (g : Graph) (id : ModuleId) (name : String) :
    (rename id name).perform g = settled g none (g.rename id name) := by
  cases hm : g.get? id with
  | none =>
      have herror : g.get id = .error (.notMember id) := by rw [Graph.get, hm]
      have hmodify : (modify id fun m => .ok (m.setName name)).perform g =
          (.error (.refused (.notMember id)), g) := by
        rw [modify, Call.perform_get_bind, herror]
        rfl
      rw [Graph.rename, herror, rename, Call.perform_bind, hmodify]
      rfl
  | some m =>
      rw [Graph.rename, Graph.get_eq_ok_iff.mpr hm]
      exact perform_modify_return hm rfl none

lemma perform_connect (g : Graph) (source target : ModuleId) : (connect source target).perform g =
    settled g (some (.connected source target)) (g.connect source target) := by
  rw [connect, Graph.connect, Call.perform_get_bind]
  refine perform_ask_bind fun ends hends => ?_
  rcases ends with ⟨s, r⟩
  refine perform_ask_bind fun _ _ => perform_ask_bind fun _ _ => perform_ask_bind fun _ _ => ?_
  exact perform_modify_return (Graph.endpoints_eq_ok_iff.mp hends).2.1 rfl _

lemma perform_connectParam (g : Graph) (source target : ModuleId) (param : String) :
    (connectParam source target param).perform g =
      settled g (some (.paramConnected source target param))
        (g.connectParam source target param) := by
  rw [connectParam, Graph.connectParam, Call.perform_get_bind]
  refine perform_ask_bind fun ends hends => ?_
  rcases ends with ⟨s, r⟩
  refine perform_ask_bind fun _ _ => ?_
  cases hk : r.paramIndex? param with
  | none => rfl
  | some k =>
      rcases exists_reach hk with ⟨q, hreach, -, hq⟩
      have hr := (Graph.endpoints_eq_ok_iff.mp hends).2.1
      simp only [hreach, hq, Call.perform_check_bind, Option.bind_some]
      exact perform_ask_bind fun _ _ => perform_modify_return hr (setBinding_eq hk (some source)) _

lemma perform_disconnect (g : Graph) (target : ModuleId) : (disconnect target).perform g =
    settled g (some (.disconnected target)) (g.disconnect target) := by
  rw [disconnect, Graph.disconnect, Call.perform_get_bind]
  refine perform_ask_bind fun m hm => perform_ask_bind fun _ _ => ?_
  exact perform_modify_return (Graph.get_eq_ok_iff.mp hm) rfl _

lemma perform_setParam (g : Graph) (id : ModuleId) (param : String) (value : Binary32) :
    (setParam id param value).perform g = settled g none (g.setParam id param value) := by
  rw [setParam, Graph.setParam, Call.perform_get_bind]
  refine perform_ask_bind fun k hk => ?_
  rcases Graph.resolveParam_eq_ok_iff.mp hk with ⟨m, hm, hindex⟩
  exact perform_modify_return hm (setValue_eq hindex value) none

lemma perform_disconnectParam (g : Graph) (target : ModuleId) (param : String) :
    (disconnectParam target param).perform g =
      settled g (some (.paramDisconnected target param)) (g.disconnectParam target param) := by
  rw [disconnectParam, Graph.disconnectParam, Call.perform_get_bind]
  refine perform_ask_bind fun k hk => ?_
  rcases Graph.resolveParam_eq_ok_iff.mp hk with ⟨m, hm, hindex⟩
  exact perform_modify_return hm (setBinding_eq hindex none) _

/-- **No edit comes to a breach**, whatever graph it is made on, and a refused one leaves the graph
as it was. -/
theorem perform_apply (g : Graph) (e : Graph.Edit) :
    (apply e).perform g = settled g (g.successEvent? e) (g.apply e) := by
  cases e with
  | add definition => exact perform_add g definition
  | setName name => rfl
  | remove id => exact perform_remove g id
  | rename id name => exact perform_rename g id name
  | setParam id param value => exact perform_setParam g id param value
  | connect source target => exact perform_connect g source target
  | connectParam source target param => exact perform_connectParam g source target param
  | disconnect target => exact perform_disconnect g target
  | disconnectParam target param => exact perform_disconnectParam g target param

/-! ## Queries -/

/-- **The query by place comes to no breach**, and it finds what the query by name finds. -/
theorem paramBinding_eq (g : Graph) (id : ModuleId) (param : String) :
    paramBinding g id param = plain (g.paramBinding id param) := by
  rw [paramBinding, Graph.paramBinding, Graph.resolveParam]
  cases hm : g.get id with
  | error e => rfl
  | ok m =>
      simp only [plain_bind, plain_ok, ok_bind]
      cases hk : m.paramIndex? param with
      | none =>
          have hparam : m.param? param = none := by
            rw [Module.param?, List.find?_eq_none]
            simpa using List.findIdx?_eq_none_iff.mp hk
          rw [hparam]
          rfl
      | some k =>
          rcases exists_reach hk with ⟨q, hreach, hparam, -⟩
          rw [hparam, plain_ok, ok_bind, hreach]
          rfl

end Guarded

/-! ## The graph after an edit -/

namespace Graph

variable {g h : Graph} {e : Edit} {x : GraphError}

lemma next_of_ok (he : g.apply e = .ok h) : g.next e = h := by
  rw [next, Guarded.perform_apply, he]
  rfl

lemma next_of_error (he : g.apply e = .error x) : g.next e = g := by
  rw [next, Guarded.perform_apply, he]
  rfl

lemma editEvents_of_ok (he : g.apply e = .ok h) : g.editEvents e = (g.successEvent? e).toList := by
  rw [editEvents, Guarded.perform_apply, he]
  rfl

lemma editEvents_of_error (he : g.apply e = .error x) : g.editEvents e = [] := by
  rw [editEvents, Guarded.perform_apply, he]
  rfl

end Graph

end Patchbay
