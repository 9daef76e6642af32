import Patchbay.Graph.Edit
import Mathlib.Tactic.Common

/-!
# What operations need and lead to

An operation that can be refused goes through conditions in a fixed order.  This file says of each
of them exactly when it succeeds and what it leads to; later proofs use these statements and do not
open the operations again.

* `bind_eq_ok_iff`, `bind_eq_error_iff` — computations in steps that can fail.
* `Catalog.register_eq_ok_iff`, `Catalog.lookup_eq_ok_iff` — catalogs.
* `Graph.connect_eq_ok_iff` and its siblings — one statement for each edit: its conditions and its
  outcome.
-/

namespace Patchbay

/-! ## Steps that can fail -/

/-- A computation in two steps succeeds exactly if both of them do. -/
lemma bind_eq_ok_iff {ε α β : Type} {x : Except ε α} {f : α → Except ε β} {b : β} :
    x >>= f = .ok b ↔ ∃ a, x = .ok a ∧ f a = .ok b := by
  cases x with
  | error e =>
      constructor
      · intro h
        cases h
      · rintro ⟨_, h, _⟩
        cases h
  | ok a =>
      constructor
      · intro h
        exact ⟨a, rfl, h⟩
      · rintro ⟨_, h, hb⟩
        cases h
        exact hb

/-- It fails if the first step does, or the second step after it. -/
lemma bind_eq_error_iff {ε α β : Type} {x : Except ε α} {f : α → Except ε β} {e : ε} :
    x >>= f = .error e ↔ x = .error e ∨ ∃ a, x = .ok a ∧ f a = .error e := by
  cases x with
  | error e' =>
      constructor
      · intro h
        cases h
        exact Or.inl rfl
      · rintro (h | ⟨_, h, _⟩)
        · cases h
          rfl
        · cases h
  | ok a =>
      constructor
      · intro h
        exact Or.inr ⟨a, rfl, h⟩
      · rintro (h | ⟨_, h, he⟩)
        · cases h
        · cases h
          exact he

/-- The second steps have to agree where the first one succeeds. -/
lemma bind_congr_of_ok {ε α β : Type} {x : Except ε α} {f f' : α → Except ε β}
    (h : ∀ a, x = .ok a → f a = f' a) : x >>= f = x >>= f' := by
  cases x with
  | error e => rfl
  | ok a => exact h a rfl

lemma pure_eq_ok_iff {ε α : Type} {a b : α} : (pure a : Except ε α) = .ok b ↔ b = a :=
  ⟨fun h => (Except.ok.inj h).symm, fun h => h ▸ rfl⟩

/-- A result that is known in part is there. -/
lemma exists_ok_of_map {ε α β : Type} {x : Except ε α} {f : α → β} {b : β}
    (h : x.toOption.map f = some b) : ∃ a, x = .ok a ∧ f a = b := by
  cases x with
  | error e => cases h
  | ok a => exact ⟨a, rfl, Option.some.inj h⟩

lemma require_eq_ok_iff {ε : Type} {condition : Prop} [Decidable condition] {error : ε}
    {u : Unit} : require condition error = .ok u ↔ condition := by
  rw [require]
  split_ifs with h
  · simp [h]
  · simp [h]

lemma require_eq_error_iff {ε : Type} {condition : Prop} [Decidable condition] {error e : ε} :
    require condition error = .error e ↔ ¬ condition ∧ e = error := by
  rw [require]
  split_ifs with h
  · simp [h]
  · simp [h, eq_comm]

/-! ## Catalogs -/

lemma Definition.validate_eq_ok_iff {d : Definition} {u : Unit} :
    d.validate = .ok u ↔ d.flaw? = none := by
  rw [validate]
  cases d.flaw? <;> simp

namespace Catalog

lemma register_eq_ok_iff {c c' : Catalog} {d : Definition} :
    c.register d = .ok c' ↔ d.flaw? = none ∧ c' = c.insert d := by
  rw [register, bind_eq_ok_iff]
  simp only [Definition.validate_eq_ok_iff, pure_eq_ok_iff, exists_const]

lemma lookup_eq_ok_iff {c : Catalog} {name : String} {d : Definition} :
    c.lookup name = .ok d ↔ c.get? name = some d := by
  rw [lookup]
  cases c.get? name <;> simp

lemma name_of_get? {c : Catalog} {name : String} {d : Definition} (h : c.get? name = some d) :
    d.name = name := by
  have := List.find?_some h
  simpa using this

end Catalog

/-! ## What is asked of a graph -/

/-- The parameter of a name is the one at its place. -/
lemma Module.param?_of_paramIndex? {m : Module} {name : String} {k : Nat}
    (h : m.paramIndex? name = some k) :
    ∃ p, m.params[k]? = some p ∧ p.name = name ∧ m.param? name = some p := by
  rcases List.findIdx?_eq_some_iff_getElem.mp h with ⟨hk, hname, hbefore⟩
  refine ⟨m.params[k], List.getElem?_eq_getElem hk, by simpa using hname, ?_⟩
  exact List.find?_eq_some_iff_getElem.mpr ⟨hname, k, hk, rfl, fun j hj => by
    simpa using hbefore j hj⟩

namespace Graph

variable {g h : Graph} {id source target : ModuleId} {name param : String} {m : Module}

lemma get_eq_ok_iff : g.get id = .ok m ↔ g.get? id = some m := by
  rw [get]
  cases g.get? id <;> simp

lemma contains_iff : g.contains id = true ↔ ∃ m, g.get? id = some m := Option.isSome_iff_exists

lemma get?_eq_some_iff {k : Nat} : g.get? ⟨k⟩ = some m ↔ g.arena[k]? = some (some m) := by
  simp [get?, Option.join_eq_some_iff]

/-- A graph is its name, its catalog, the number of its places and what its handles stand for. -/
lemma ext_get? (hname : g.name = h.name) (hcatalog : g.catalog = h.catalog)
    (hsize : g.arena.size = h.arena.size) (hget : ∀ id, g.get? id = h.get? id) : g = h := by
  have harena : g.arena = h.arena := by
    refine Array.ext hsize fun i hi hi' => ?_
    have := hget ⟨i⟩
    simp only [get?, Array.getElem?_eq_getElem hi, Array.getElem?_eq_getElem hi',
      Option.join_some] at this
    exact this
  cases g
  cases h
  simp_all

lemma modifyModule_congr {id : ModuleId} {f f' : Module → Module}
    (hf : ∀ m, g.get? id = some m → f m = f' m) : g.modifyModule id f = g.modifyModule id f' := by
  refine ext_get? rfl rfl (by simp [modifyModule]) fun other => ?_
  rw [get?_modifyModule, get?_modifyModule]
  split_ifs with h
  · subst h
    cases hm : g.get? id with
    | none => rfl
    | some m => simp [hf m hm]
  · rfl

lemma resolveParam_eq_ok_iff {k : Nat} :
    g.resolveParam id param = .ok k ↔ ∃ m, g.get? id = some m ∧ m.paramIndex? param = some k := by
  rw [resolveParam, bind_eq_ok_iff]
  simp only [get_eq_ok_iff]
  refine exists_congr fun m => and_congr_right fun _ => ?_
  cases m.paramIndex? param <;> simp

lemma endpoints_eq_ok_iff {sender receiver : Module} :
    g.endpoints source target = .ok (sender, receiver) ↔
      g.get? source = some sender ∧ g.get? target = some receiver ∧ sender.outChannels ≠ 0 := by
  rw [endpoints, bind_eq_ok_iff]
  simp only [bind_eq_ok_iff, get_eq_ok_iff, require_eq_ok_iff]
  constructor
  · rintro ⟨s, hs, r, hr, _, hout, h⟩
    cases h
    exact ⟨hs, hr, hout⟩
  · rintro ⟨hs, hr, hout⟩
    exact ⟨sender, hs, receiver, hr, (), hout, rfl⟩

/-! ## What edits need and lead to -/

lemma new_eq_ok_iff {c : Catalog} :
    Graph.new c = .ok g ↔ ∃ d, c.get? sinkName = some d ∧
      g = ⟨"", c, #[some ((Module.instantiate .sink d).setName sinkDisplayName)]⟩ := by
  rw [new, bind_eq_ok_iff]
  simp only [Catalog.lookup_eq_ok_iff, pure_eq_ok_iff]

lemma add_eq_ok_iff :
    g.add name = .ok h ↔ ∃ d, g.catalog.get? name = some d ∧
      h = { g with arena := g.arena.push (some (.instantiate g.nextId d)) } := by
  rw [add, bind_eq_ok_iff]
  simp only [Catalog.lookup_eq_ok_iff, pure_eq_ok_iff]

/-- The graph without a module: its place is empty and no slot is bound to it. -/
def without (g : Graph) (id : ModuleId) : Graph :=
  { g with
    arena := (g.arena.map (Option.map (·.clearReferences id))).setIfInBounds id.index none }

lemma remove_eq_ok_iff :
    g.remove id = .ok h ↔ (∃ m, g.get? id = some m) ∧ id ≠ .sink ∧ h = g.without id := by
  rw [remove, bind_eq_ok_iff]
  simp only [bind_eq_ok_iff, get_eq_ok_iff, require_eq_ok_iff, pure_eq_ok_iff]
  constructor
  · rintro ⟨m, hm, _, hsink, rfl⟩
    exact ⟨⟨m, hm⟩, hsink, rfl⟩
  · rintro ⟨⟨m, hm⟩, hsink, rfl⟩
    exact ⟨m, hm, (), hsink, rfl⟩

lemma rename_eq_ok_iff :
    g.rename id name = .ok h ↔
      (∃ m, g.get? id = some m) ∧ h = g.modifyModule id (·.setName name) := by
  rw [rename, bind_eq_ok_iff]
  simp only [get_eq_ok_iff, pure_eq_ok_iff, exists_and_right]

lemma setParam_eq_ok_iff {value : Binary32} :
    g.setParam id param value = .ok h ↔
      ∃ k, (∃ m, g.get? id = some m ∧ m.paramIndex? param = some k) ∧
        h = g.modifyModule id (·.setValue k value) := by
  rw [setParam, bind_eq_ok_iff]
  simp only [resolveParam_eq_ok_iff, pure_eq_ok_iff]

lemma connect_eq_ok_iff :
    g.connect source target = .ok h ↔ ∃ sender receiver,
      g.get? source = some sender ∧ g.get? target = some receiver ∧ sender.outChannels ≠ 0 ∧
      receiver.inChannels ≠ 0 ∧ receiver.inChannels = sender.outChannels ∧
      receiver.mainInput = none ∧ h = g.modifyModule target (·.setMainInput (some source)) := by
  rw [connect, bind_eq_ok_iff]
  simp only [bind_eq_ok_iff, require_eq_ok_iff, pure_eq_ok_iff, Prod.exists, endpoints_eq_ok_iff]
  constructor
  · rintro ⟨s, r, ⟨hs, hr, hout⟩, _, hin, _, hcount, _, hfree, rfl⟩
    exact ⟨s, r, hs, hr, hout, hin, hcount, hfree, rfl⟩
  · rintro ⟨s, r, hs, hr, hout, hin, hcount, hfree, rfl⟩
    exact ⟨s, r, ⟨hs, hr, hout⟩, (), hin, (), hcount, (), hfree, rfl⟩

lemma connectParam_eq_ok_iff :
    g.connectParam source target param = .ok h ↔ ∃ sender receiver k,
      g.get? source = some sender ∧ g.get? target = some receiver ∧ sender.outChannels = 1 ∧
      receiver.paramIndex? param = some k ∧ (receiver.params[k]?.bind (·.binding)) = none ∧
      h = g.modifyModule target (·.setBinding k (some source)) := by
  rw [connectParam, bind_eq_ok_iff]
  simp only [bind_eq_ok_iff, require_eq_ok_iff, Prod.exists, endpoints_eq_ok_iff]
  constructor
  · rintro ⟨s, r, ⟨hs, hr, -⟩, _, hmono, hrest⟩
    cases hk : r.paramIndex? param with
    | none =>
        rw [hk] at hrest
        cases hrest
    | some k =>
        rw [hk] at hrest
        simp only [bind_eq_ok_iff, require_eq_ok_iff, pure_eq_ok_iff] at hrest
        obtain ⟨_, hfree, rfl⟩ := hrest
        exact ⟨s, r, k, hs, hr, hmono, hk, hfree, rfl⟩
  · rintro ⟨s, r, k, hs, hr, hmono, hk, hfree, hh⟩
    refine ⟨s, r, ⟨hs, hr, by simp [hmono]⟩, (), hmono, ?_⟩
    rw [hk]
    simp only [bind_eq_ok_iff, require_eq_ok_iff, pure_eq_ok_iff]
    exact ⟨(), hfree, hh⟩

lemma disconnect_eq_ok_iff :
    g.disconnect target = .ok h ↔ ∃ receiver, g.get? target = some receiver ∧
      receiver.inChannels ≠ 0 ∧ h = g.modifyModule target (·.setMainInput none) := by
  rw [disconnect, bind_eq_ok_iff]
  simp only [bind_eq_ok_iff, get_eq_ok_iff, require_eq_ok_iff, pure_eq_ok_iff]
  refine exists_congr fun r => and_congr_right fun _ => ?_
  constructor
  · rintro ⟨_, hin, rfl⟩
    exact ⟨hin, rfl⟩
  · rintro ⟨hin, rfl⟩
    exact ⟨(), hin, rfl⟩

lemma disconnectParam_eq_ok_iff :
    g.disconnectParam target param = .ok h ↔
      ∃ k, (∃ m, g.get? target = some m ∧ m.paramIndex? param = some k) ∧
        h = g.modifyModule target (·.setBinding k none) := by
  rw [disconnectParam, bind_eq_ok_iff]
  simp only [resolveParam_eq_ok_iff, pure_eq_ok_iff]

end Graph

end Patchbay
