import Patchbay.Proofs.ByteOrder
import Patchbay.Proofs.WellFormed
import Mathlib.Data.Finset.Card
import Mathlib.Data.String.Basic

/-!
# What a catalog holds

A catalog is a list in the order of its names, and registering puts a definition in its place or in
that of its namesake.  Calls can be refused, and a bulk registration stops in the middle.  This file
says what the list is in terms of the definitions that were taken, in the order in which they were.

* `Catalog.history` — **all definitions that a run of calls took**, and `Catalog.Latest`, the last
  of them with a given name.
* `Catalog.ofDefinitions` — definitions put in one after the other.  Every run of calls comes down
  to this (`fillAll_eq_ofDefinitions`), and what a catalog holds is shown by adding one definition.
* `Catalog.contents_exact` — **what a catalog holds after any calls, and what a call does to it.**
-/

namespace Patchbay

namespace Catalog

variable {c : Catalog} {d e : Definition} {ds : List Definition} {name : String} {x : GraphError}

/-! ## One definition more -/

/-- Definitions in ascending order of their names. -/
def Ascending (ds : List Definition) : Prop := ds.Pairwise (·.name < ·.name)

lemma eq_or_mem_of_mem_insertSorted : ∀ {ds : List Definition}, e ∈ insertSorted d ds →
    e = d ∨ e ∈ ds
  | [], h => Or.inl (List.mem_singleton.mp h)
  | first :: ds, h => by
      rw [insertSorted] at h
      split_ifs at h
      · exact List.mem_cons.mp h
      · exact (List.mem_cons.mp h).imp_right (List.mem_cons_of_mem _)
      · rcases List.mem_cons.mp h with rfl | h
        · exact Or.inr List.mem_cons_self
        · exact (eq_or_mem_of_mem_insertSorted h).imp_right (List.mem_cons_of_mem _)

/-- **A definition is put in its place.** -/
lemma ascending_insertSorted : ∀ {ds : List Definition}, Ascending ds →
    Ascending (insertSorted d ds)
  | [], _ => List.pairwise_singleton _ _
  | first :: ds, h => by
      have ⟨hfirst, hrest⟩ := List.pairwise_cons.mp h
      rw [insertSorted]
      split_ifs with hlt heq
      · refine List.pairwise_cons.mpr ⟨fun e he => ?_, h⟩
        rcases List.mem_cons.mp he with rfl | he
        · exact hlt
        · exact lt_trans hlt (hfirst e he)
      · refine List.pairwise_cons.mpr ⟨fun e he => ?_, hrest⟩
        rw [heq]
        exact hfirst e he
      · refine List.pairwise_cons.mpr ⟨fun e he => ?_, ascending_insertSorted hrest⟩
        rcases eq_or_mem_of_mem_insertSorted he with rfl | he
        · exact lt_of_le_of_ne (not_lt.mp hlt) (Ne.symm heq)
        · exact hfirst e he

lemma Ascending.nodup_names (h : Ascending c.definitions) : c.names.Nodup := by
  rw [names, List.Nodup, List.pairwise_map]
  exact h.imp fun hlt => ne_of_lt hlt

lemma mem_names_iff : name ∈ c.names ↔ c.get? name ≠ none := by
  simp [names, get?]

lemma mem_names_insert : name ∈ (c.insert d).names ↔ d.name = name ∨ name ∈ c.names := by
  rw [mem_names_iff, mem_names_iff, get?_insert]
  split_ifs with h <;> simp [h]

/-- In ascending order, every definition is found under its name. -/
lemma Ascending.get?_of_mem (h : Ascending c.definitions) (hd : d ∈ c.definitions) :
    c.get? d.name = some d := by
  have hmem : d.name ∈ c.names := List.mem_map_of_mem hd
  obtain ⟨e, he⟩ := Option.ne_none_iff_exists'.mp (mem_names_iff.mp hmem)
  have hsame := List.inj_on_of_nodup_map h.nodup_names (List.mem_of_find?_eq_some he) hd
    (name_of_get? he)
  rw [he, hsame]

/-! ## Definitions one after the other -/

/-- The catalog with definitions put in one after the other, later ones in the place of earlier
ones of the same name. -/
def ofDefinitions (ds : List Definition) : Catalog := ds.foldl insert empty

/-- **The last of some definitions with a given name.** -/
structure Latest (ds : List Definition) (name : String) (d : Definition) : Prop where
  name_eq : d.name = name
  last : ∃ before after, ds = before ++ d :: after ∧ ∀ e ∈ after, e.name ≠ name

lemma ofDefinitions_concat : ofDefinitions (ds ++ [d]) = (ofDefinitions ds).insert d := by
  rw [ofDefinitions, List.foldl_concat, ofDefinitions]

lemma ascending_ofDefinitions (ds : List Definition) :
    Ascending (ofDefinitions ds).definitions := by
  induction ds using List.reverseRecOn with
  | nil => exact List.Pairwise.nil
  | append_singleton ds d ih =>
      rw [ofDefinitions_concat]
      exact ascending_insertSorted ih

lemma mem_names_ofDefinitions : name ∈ (ofDefinitions ds).names ↔ ∃ d ∈ ds, d.name = name := by
  induction ds using List.reverseRecOn with
  | nil => simp [ofDefinitions, empty, names]
  | append_singleton ds d ih =>
      rw [ofDefinitions_concat, mem_names_insert, ih]
      simp only [List.mem_append, List.mem_singleton, or_and_right, exists_or, exists_eq_left]
      exact or_comm

/-- A definition that comes last is the latest of its name and of no other. -/
lemma latest_concat : Latest (ds ++ [d]) name e ↔
    if d.name = name then e = d else Latest ds name e := by
  constructor
  · rintro ⟨hname, before, after, heq, hafter⟩
    rcases List.eq_nil_or_concat after with rfl | ⟨init, last, rfl⟩
    · obtain ⟨-, hlast⟩ := List.append_inj' heq rfl
      cases hlast
      rw [if_pos hname]
    · have hconcat : ds ++ [d] = (before ++ e :: init) ++ [last] := by simpa using heq
      obtain ⟨hinit, hlast⟩ := List.append_inj' hconcat rfl
      cases hlast
      rw [if_neg (hafter d (by simp))]
      exact ⟨hname, before, init, hinit, fun e he => hafter e (by simp [he])⟩
  · split_ifs with hname
    · rintro rfl
      exact ⟨hname, ds, [], rfl, by simp⟩
    · rintro ⟨hname', before, after, rfl, hafter⟩
      refine ⟨hname', before, after ++ [d], by simp, fun e he => ?_⟩
      rcases List.mem_append.mp he with he | he
      · exact hafter e he
      · exact (List.mem_singleton.mp he) ▸ hname

/-- **What is found under a name is the latest definition of that name.** -/
lemma get?_ofDefinitions : (ofDefinitions ds).get? name = some d ↔ Latest ds name d := by
  induction ds using List.reverseRecOn with
  | nil =>
      refine iff_of_false (by simp [ofDefinitions, empty, get?]) ?_
      rintro ⟨-, before, after, heq, -⟩
      simp at heq
  | append_singleton ds e ih =>
      rw [ofDefinitions_concat, get?_insert, latest_concat]
      split_ifs
      · simp [eq_comm]
      · exact ih

/-! ## Calls -/

/-- The definitions that a call takes. -/
def Filling.taken : Filling → List Definition
  | .register d => accepted [d]
  | .registerAll ds => accepted ds

/-- **All definitions that were taken**, in the order in which they were: those of the catalog at
the start, and then those of every call. -/
def history (start : Catalog) (fillings : List Filling) : List Definition :=
  start.definitions ++ fillings.flatMap Filling.taken

lemma register_eq_error_iff : c.register d = .error x ↔ d.validate = .error x := by
  rw [register, bind_eq_error_iff]
  simp [pure, Except.pure]

lemma fill_register_of_valid (h : d.validate = .ok ()) :
    c.register d = .ok (c.insert d) ∧ c.fill (.register d) = c.insert d := by
  have hok : c.register d = .ok (c.insert d) :=
    register_eq_ok_iff.mpr ⟨Definition.validate_eq_ok_iff.mp h, rfl⟩
  refine ⟨hok, ?_⟩
  rw [fill_register, hok]
  rfl

lemma fill_register_of_error (h : c.register d = .error x) : c.fill (.register d) = c := by
  rw [fill_register, h]
  rfl

/-- Definitions that pass are registered one by one, and then come the others. -/
lemma registerAll_append {ds rest : List Definition} (h : ∀ d ∈ ds, d.validate = .ok ()) :
    c.registerAll (ds ++ rest) = (c.fillAll (ds.map .register)).registerAll rest := by
  induction ds generalizing c with
  | nil => rfl
  | cons d ds ih =>
      obtain ⟨hd, hds⟩ := List.forall_mem_cons.mp h
      obtain ⟨hok, hfill⟩ := fill_register_of_valid (c := c) hd
      rw [List.cons_append, registerAll_cons, hok, List.map_cons, fillAll, List.foldl_cons, hfill]
      exact ih hds

lemma registerAll_fst : ∀ (ds : List Definition) (c : Catalog),
    (c.registerAll ds).1 = (accepted ds).foldl insert c
  | [], _ => rfl
  | d :: ds, c => by
      rw [registerAll_cons, accepted, List.takeWhile_cons]
      cases hflaw : d.flaw? with
      | none =>
          rw [register_eq_ok_iff.mpr ⟨hflaw, rfl⟩]
          exact registerAll_fst ds _
      | some flaw =>
          have herror : c.register d = .error (.invalidDefinition d.name flaw) := by
            rw [register_eq_error_iff, Definition.validate, hflaw]
          rw [herror]
          rfl

/-- A call puts in what it takes. -/
lemma fill_eq_foldl (f : Filling) : c.fill f = f.taken.foldl insert c := by
  cases f with
  | registerAll ds => exact registerAll_fst ds c
  | register d =>
      -- a single definition is a list of one
      have hone : c.fill (.register d) = (c.registerAll [d]).1 := by
        rw [fill_register, registerAll_cons]
        cases c.register d <;> rfl
      rw [hone]
      exact registerAll_fst [d] c

/-- **A run of calls puts in everything that was taken.** -/
lemma fillAll_eq_ofDefinitions {start : Catalog} (hstart : start = empty ∨ start = withSink)
    (fillings : List Filling) :
    start.fillAll fillings = ofDefinitions (history start fillings) := by
  have hopened : start.definitions.foldl insert empty = start := by
    rcases hstart with rfl | rfl
    · rfl
    · rfl
  have hrun : ∀ (fillings : List Filling) (c : Catalog),
      c.fillAll fillings = (fillings.flatMap Filling.taken).foldl insert c := by
    intro fillings
    induction fillings with
    | nil => intro c; rfl
    | cons f fillings ih =>
        intro c
        rw [fillAll, List.foldl_cons, List.flatMap_cons, List.foldl_append, ← fill_eq_foldl]
        exact ih _
  rw [hrun, history, ofDefinitions, List.foldl_append, hopened]

/-! ## What a catalog holds -/

lemma lookup_eq_error_iff : c.lookup name = .error x ↔ name ∉ c.names ∧ x = .notFound name := by
  rw [mem_names_iff, lookup]
  cases c.get? name <;> simp [eq_comm]

lemma size_ofDefinitions (ds : List Definition) :
    (ofDefinitions ds).size = (ds.map (·.name)).toFinset.card := by
  have hnames : (ds.map (·.name)).toFinset = (ofDefinitions ds).names.toFinset := by
    ext name
    rw [List.mem_toFinset, List.mem_toFinset, mem_names_ofDefinitions, List.mem_map]
  rw [hnames, List.toFinset_card_of_nodup (ascending_ofDefinitions ds).nodup_names, names,
    List.length_map, size]

/-- Bulk registration up to the definition at a place, which is refused. -/
lemma registerAll_of_error {k : Nat} (hk : ds[k]? = some d) (hd : d.validate = .error x)
    (hbefore : ∀ e ∈ ds.take k, e.validate = .ok ()) :
    c.registerAll ds = (c.fillAll ((ds.take k).map .register), .error x) := by
  obtain ⟨hlt, hget⟩ := List.getElem?_eq_some_iff.mp hk
  have hsplit : ds = ds.take k ++ d :: ds.drop (k + 1) := by
    rw [← hget, ← List.drop_eq_getElem_cons hlt, List.take_append_drop]
  conv_lhs => rw [hsplit]
  rw [registerAll_append hbefore, registerAll_cons, register_eq_error_iff.mpr hd]

lemma registerAll_of_valid (h : ∀ d ∈ ds, d.validate = .ok ()) :
    c.registerAll ds = (c.fillAll (ds.map .register), .ok ()) := by
  have happend : c.registerAll (ds ++ []) = (c.fillAll (ds.map .register)).registerAll [] :=
    registerAll_append h
  rwa [List.append_nil, registerAll] at happend

/-- **A catalog, exactly**, after any calls from the empty catalog or the one with the stereo sink.
Every definition in it passes and is found under its name.  What is found under a name, if anything
is, is the latest definition of that name that was taken.  The names are in ascending order of their
bytes, so each is there once, and there are as many as different names were taken.  A definition is
refused for what is wrong with it and for nothing else, and this changes nothing.  A list is
registered up to the first definition that is wrong, whose error it gives; that definition and those
behind it leave no trace. -/
theorem contents_exact {start : Catalog} (hstart : start = empty ∨ start = withSink)
    (fillings : List Filling) :
    let c := start.fillAll fillings
    let taken := history start fillings
    (∀ d ∈ c.definitions, d.validate = .ok () ∧ c.get? d.name = some d) ∧
    (∀ name d, c.get? name = some d ↔ Latest taken name d) ∧
    (∀ name d, c.lookup name = .ok d ↔ Latest taken name d) ∧
    (∀ name e, c.lookup name = .error e ↔
      (∀ d ∈ taken, d.name ≠ name) ∧ e = .notFound name) ∧
    c.names.Pairwise (fun a b => bytes a < bytes b) ∧
    c.size = (taken.map (·.name)).toFinset.card ∧
    (∀ d e, c.register d = .error e ↔ d.validate = .error e) ∧
    (∀ d e, c.register d = .error e → c.fill (.register d) = c) ∧
    (∀ ds k bad e, ds[k]? = some bad → bad.validate = .error e →
      (∀ d ∈ ds.take k, d.validate = .ok ()) →
      c.registerAll ds = (c.fillAll ((ds.take k).map .register), .error e)) ∧
    (∀ ds, (∀ d ∈ ds, d.validate = .ok ()) →
      c.registerAll ds = (c.fillAll (ds.map .register), .ok ())) := by
  intro c taken
  have hc : c = ofDefinitions taken := fillAll_eq_ofDefinitions hstart fillings
  have hreachable : c.Reachable := ⟨start, fillings, hstart, rfl⟩
  have hascending : Ascending c.definitions := hc ▸ ascending_ofDefinitions taken
  have hlatest : ∀ name d, c.get? name = some d ↔ Latest taken name d := by
    intro name d
    rw [hc, get?_ofDefinitions]
  refine ⟨fun d hd => ?_, hlatest, ?_, ?_, ?_, ?_, fun d e => register_eq_error_iff,
    fun d e => fill_register_of_error, fun ds k bad e => registerAll_of_error,
    fun ds => registerAll_of_valid⟩
  · have hget := hascending.get?_of_mem hd
    exact ⟨Definition.validate_eq_ok_iff.mpr (hreachable.flaw?_eq_none _ _ hget), hget⟩
  · intro name d
    rw [lookup_eq_ok_iff, hlatest]
  · intro name e
    rw [lookup_eq_error_iff, hc, mem_names_ofDefinitions]
    simp only [not_exists, not_and, ne_eq]
  · rw [names, List.pairwise_map]
    exact hascending.imp bytes_lt_bytes
  · rw [hc, size_ofDefinitions]

/-- Calls that replace the sink and a pan, and that stop at a definition with too many channels. -/
def demoRefills : List Filling :=
  [.registerAll [Graph.demoPan, { name := "Surround", inChannels := 1, outChannels := 6 },
     Graph.demoMul],
   .register { name := sinkName, inChannels := 1, outChannels := 0 },
   .register { Graph.demoPan with code := "r=l;" },
   .register { name := sinkName, inChannels := 1, outChannels := 1 }]

/-- The sink of the start is gone, the last pan is there, and what came behind the definition with
too many channels is not. -/
theorem contents_exact_demo :
    (withSink.fillAll demoRefills).get? sinkName =
      some { name := sinkName, inChannels := 1, outChannels := 0 } ∧
    (withSink.fillAll demoRefills).lookup "Pan" = .ok { Graph.demoPan with code := "r=l;" } ∧
    (withSink.fillAll demoRefills).lookup "Mul" = .error (.notFound "Mul") ∧
    (withSink.fillAll demoRefills).size = 2 := by
  obtain ⟨-, hget, hlookup, hmissing, -, hsize, -⟩ := contents_exact (Or.inr rfl) demoRefills
  refine ⟨(hget _ _).mpr ⟨rfl, ?_⟩, (hlookup _ _).mpr ⟨rfl, ?_⟩, (hmissing _ _).mpr ⟨?_, rfl⟩, ?_⟩
  · exact ⟨[Definition.sink, Graph.demoPan], [{ Graph.demoPan with code := "r=l;" }], rfl,
      by decide⟩
  · exact ⟨[Definition.sink, Graph.demoPan,
      { name := sinkName, inChannels := 1, outChannels := 0 }], [], rfl, by simp⟩
  · decide
  · rw [hsize]
    decide

end Catalog

end Patchbay
