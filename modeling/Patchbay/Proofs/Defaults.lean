import Patchbay.Proofs.Flaws
import Mathlib.Data.List.Induction

/-!
# Defaults stay with their names

A definition that is put together step by step keeps the names of its parameters in one list and
their defaults in another.  A step that gives a default first makes up for the names before it, but
only if there are no defaults yet; a step that just names a parameter leaves the defaults alone.  So
whether a default stands at the place of its name is a matter of the whole history.

* `Definition.startingParams` — what the steps say about the parameters, read off the steps alone.
* `Definition.NamesFirst` — no step that just names a parameter comes after one with a default.
* `Definition.Paired`, `Definition.Lags` — the two ways in which a history can come out: names and
  defaults belong together place by place, or there are too few defaults for good.
* `Definition.paired_or_lags` — **which history comes out which way.**
* `Definition.build_exact` — **a definition that passes gives every parameter its own value, and so
  does every module made from it.**
-/

namespace Patchbay

namespace Definition

/-! ## What the steps say -/

/-- The parameter that a step adds, as a module is to start with it: with the value that the step
gives, or with zero if it gives none. -/
def startingParam? : Step → Option Param
  | .param name value => some ⟨name, value, none⟩
  | .name name => some ⟨name, .zero, none⟩
  | .workspace _ | .code _ => none

/-- The parameters that the steps add, in their order. -/
def startingParams (steps : List Step) : List Param := steps.filterMap startingParam?

/-- No step that just names a parameter comes after one that gives a default. -/
def NamesFirst (steps : List Step) : Prop :=
  steps.Pairwise fun earlier later =>
    ∀ name value late, earlier = .param name value → later ≠ .name late

lemma startingParams_concat (steps : List Step) (s : Step) :
    startingParams (steps ++ [s]) = startingParams steps ++ (startingParam? s).toList := by
  rw [startingParams, List.filterMap_append, ← startingParams]
  cases s <;> rfl

lemma namesFirst_concat_iff {steps : List Step} {s : Step} :
    NamesFirst (steps ++ [s]) ↔ NamesFirst steps ∧
      ∀ late, s = .name late → ∀ name value, .param name value ∉ steps := by
  simp only [NamesFirst, List.pairwise_append, List.pairwise_singleton, List.mem_singleton,
    forall_eq, true_and]
  refine and_congr_right fun _ => ?_
  constructor
  · intro h late hs name value hmem
    exact h _ hmem name value late rfl hs
  · rintro h _ hmem name value late rfl hs
    exact h late hs name value hmem

/-! ## Names and defaults, place by place -/

/-- **Names and defaults belong together**: they are those of given parameters, none of which is
bound yet, and without any defaults all of these start with zero. -/
structure Paired (d : Definition) (params : List Param) : Prop where
  names : d.paramNames = params.map (·.name)
  values : d.paramDefaults.getD (List.replicate d.paramCount .zero) = params.map (·.value)
  free : ∀ p ∈ params, p.binding = none

/-- There are defaults, but fewer than names. -/
def Lags (d : Definition) : Prop :=
  ∃ ds, d.paramDefaults = some ds ∧ ds.length < d.paramNames.length

variable {d : Definition} {params : List Param}

/-- A step keeps names and defaults together, unless it names a parameter after a default. -/
lemma Paired.step (h : d.Paired params) (s : Step)
    (hs : ∀ late, s = .name late → d.paramDefaults = none) :
    (d.step s).Paired (params ++ (startingParam? s).toList) := by
  cases s with
  | param name value =>
      refine ⟨?_, ?_, by simpa [startingParam?, or_imp, forall_and] using h.free⟩
      · simp [Definition.step, withParam, startingParam?, h.names]
      · simp [Definition.step, withParam, startingParam?, h.values]
  | name name =>
      have hnone := hs name rfl
      have hvalues := h.values
      rw [hnone, Option.getD_none] at hvalues
      refine ⟨?_, ?_, by simpa [startingParam?, or_imp, forall_and] using h.free⟩
      · simp [Definition.step, withName, startingParam?, h.names]
      · -- without defaults so far, one more name is one more zero
        simp [Definition.step, withName, startingParam?, hnone, paramCount, List.replicate_succ',
          ← hvalues]
  | workspace size =>
      rw [startingParam?, Option.toList_none, List.append_nil]
      exact ⟨h.names, h.values, h.free⟩
  | code text =>
      rw [startingParam?, Option.toList_none, List.append_nil]
      exact ⟨h.names, h.values, h.free⟩

lemma Paired.defaultsFit (h : d.Paired params) : d.DefaultsFit := by
  cases hdefaults : d.paramDefaults with
  | none => exact Or.inl hdefaults
  | some ds =>
      have hvalues := h.values
      rw [hdefaults, Option.getD_some] at hvalues
      exact Or.inr ⟨ds, hdefaults, by simp [hvalues, h.names]⟩

/-- A name without a default makes the defaults lag. -/
lemma Paired.lags_withName (h : d.Paired params) (hsome : d.paramDefaults ≠ none) (name : String) :
    (d.withName name).Lags := by
  obtain ⟨ds, hds⟩ := Option.ne_none_iff_exists'.mp hsome
  have hvalues := h.values
  rw [hds, Option.getD_some] at hvalues
  exact ⟨ds, hds, by simp [Definition.withName, hvalues, h.names]⟩

/-- No step makes up for a default that is missing. -/
lemma Lags.step (h : d.Lags) (s : Step) : (d.step s).Lags := by
  obtain ⟨ds, hds, hlt⟩ := h
  cases s with
  | param name value => exact ⟨ds ++ [value], by simp [Definition.step, withParam, hds],
      by simpa [Definition.step, withParam] using hlt⟩
  | name name => exact ⟨ds, hds, by simpa [Definition.step, withName] using Nat.lt_succ_of_lt hlt⟩
  | workspace size => exact ⟨ds, hds, hlt⟩
  | code text => exact ⟨ds, hds, hlt⟩

lemma Lags.not_defaultsFit (h : d.Lags) : ¬ d.DefaultsFit := by
  obtain ⟨ds, hds, hlt⟩ := h
  rintro (hnone | ⟨ds', hds', hlength⟩)
  · rw [hds] at hnone
    cases hnone
  · cases hds.symm.trans hds'
    exact Nat.ne_of_lt hlt hlength

/-! ## Histories -/

section History

variable (name : String) (inChannels outChannels : UInt8)

lemma build_concat (steps : List Step) (s : Step) :
    build name inChannels outChannels (steps ++ [s]) =
      (build name inChannels outChannels steps).step s := by
  simp [build]

lemma paramDefaults_build_eq_none_iff (steps : List Step) :
    (build name inChannels outChannels steps).paramDefaults = none ↔
      ∀ param value, .param param value ∉ steps := by
  induction steps using List.reverseRecOn with
  | nil => simp [build]
  | append_singleton steps s ih =>
      rw [build_concat]
      cases s with
      | param param value =>
          constructor
          · rintro ⟨⟩
          · intro h
            exact absurd (by simp) (h param value)
      | name _ => simpa [step, withName] using ih
      | workspace _ => simpa [step, withWorkspace] using ih
      | code _ => simpa [step, withCode] using ih

/-- **How a history comes out.**  Names and defaults belong together as long as no name without a
default comes after a default, and from then on the defaults lag. -/
theorem paired_or_lags (steps : List Step) :
    (NamesFirst steps ∧ (build name inChannels outChannels steps).Paired (startingParams steps)) ∨
      (¬ NamesFirst steps ∧ (build name inChannels outChannels steps).Lags) := by
  induction steps using List.reverseRecOn with
  | nil => exact Or.inl ⟨List.Pairwise.nil, rfl, rfl, by simp [startingParams]⟩
  | append_singleton steps s ih =>
      rw [build_concat, namesFirst_concat_iff, startingParams_concat]
      rcases ih with ⟨hfirst, hpaired⟩ | ⟨hlate, hlags⟩
      · have hnone := paramDefaults_build_eq_none_iff name inChannels outChannels steps
        by_cases hlast : ∀ late, s = .name late → ∀ param value, .param param value ∉ steps
        · exact Or.inl ⟨⟨hfirst, hlast⟩, hpaired.step s fun late hs => hnone.mpr (hlast late hs)⟩
        · push Not at hlast
          obtain ⟨late, rfl, hgiven⟩ := hlast
          refine Or.inr ⟨fun h => ?_, hpaired.lags_withName (fun h => ?_) late⟩
          · obtain ⟨param, value, hmem⟩ := hgiven
            exact h.2 late rfl param value hmem
          · obtain ⟨param, value, hmem⟩ := hgiven
            exact hnone.mp h param value hmem
      · exact Or.inr ⟨fun h => hlate h.1, hlags.step s⟩

lemma defaultsFit_build_iff (steps : List Step) :
    (build name inChannels outChannels steps).DefaultsFit ↔ NamesFirst steps := by
  rcases paired_or_lags name inChannels outChannels steps with ⟨hfirst, hpaired⟩ | ⟨hlate, hlags⟩
  · exact iff_of_true hpaired.defaultsFit hfirst
  · exact iff_of_false hlags.not_defaultsFit hlate

end History

/-! ## The values of parameters -/

/-- Missing defaults read as zeros. -/
lemma defaultValue_eq (d : Definition) (k : Nat) : d.defaultValue k =
    (d.paramDefaults.getD (List.replicate d.paramCount .zero))[k]?.getD .zero := by
  rw [defaultValue]
  cases d.paramDefaults with
  | none =>
      simp only [Option.getD_none, List.getElem?_nil, List.getElem?_replicate]
      split <;> rfl
  | some ds => rfl

lemma Paired.defaultValue (h : d.Paired params) {k : Nat} {p : Param} (hp : params[k]? = some p) :
    d.defaultValue k = p.value := by
  rw [defaultValue_eq, h.values, List.getElem?_map, hp]
  rfl

/-- Under its name, a parameter has its own value. -/
lemma Paired.exists_paramIndex? (h : d.Paired params) (hdistinct : d.paramNames.Nodup) {p : Param}
    (hp : p ∈ params) : ∃ k, d.paramIndex? p.name = some k ∧ d.defaultValue k = p.value := by
  obtain ⟨k, hk⟩ := List.getElem?_of_mem hp
  refine ⟨k, ?_, h.defaultValue hk⟩
  rw [paramIndex?_eq_some_iff hdistinct, h.names, List.getElem?_map, hk]
  rfl

/-- A module starts with the parameters of its definition. -/
lemma Paired.params_instantiate (h : d.Paired params) (id : ModuleId) :
    (Module.instantiate id d).params = params := by
  refine List.ext_getElem? fun k => ?_
  rw [Module.instantiate, List.getElem?_mapIdx, h.names, List.getElem?_map]
  cases hp : params[k]? with
  | none => rfl
  | some p =>
      have hfree := h.free p (List.mem_of_getElem? hp)
      simp only [Option.map_some, h.defaultValue hp, ← hfree]

/-- **Definitions put together step by step.**  There are no defaults or as many as names if and
only if no name without a default comes after a default.  If the definition passes, then looking up
a parameter by its name and then its default gives exactly the value that came with the name, or
zero if none did.  Every module that is made from the definition, as the sink of a new graph or as
an addition to a graph, starts with exactly these values, in the order of the names. -/
theorem build_exact {name : String} {inChannels outChannels : UInt8} {steps : List Step}
    {d : Definition} (hd : d = build name inChannels outChannels steps) :
    (d.DefaultsFit ↔ NamesFirst steps) ∧
    (d.validate = .ok () →
      (∀ param value, .param param value ∈ steps →
        ∃ k, d.paramIndex? param = some k ∧ d.defaultValue k = value) ∧
      (∀ param, .name param ∈ steps →
        ∃ k, d.paramIndex? param = some k ∧ d.defaultValue k = .zero) ∧
      d.paramNames = (startingParams steps).map (·.name) ∧
      (∀ id, (Module.instantiate id d).params = startingParams steps) ∧
      (∀ c : Catalog, c.get? sinkName = some d → ∃ g, Graph.new c = .ok g ∧
        (g.get? .sink).map (·.params) = some (startingParams steps)) ∧
      (∀ g : Graph, g.catalog.get? name = some d → ∃ h, g.add name = .ok h ∧
        (h.get? g.nextId).map (·.params) = some (startingParams steps))) := by
  subst hd
  have hfit := defaultsFit_build_iff name inChannels outChannels steps
  refine ⟨hfit, fun hvalid => ?_⟩
  obtain ⟨-, -, hdefaults, hdistinct, -⟩ := validate_eq_ok_iff_rules.mp hvalid
  obtain ⟨-, hpaired⟩ : NamesFirst steps ∧
      (build name inChannels outChannels steps).Paired (startingParams steps) := by
    rcases paired_or_lags name inChannels outChannels steps with h | ⟨hlate, -⟩
    · exact h
    · exact absurd (hfit.mp hdefaults) hlate
  refine ⟨fun param value hstep => ?_, fun param hstep => ?_, hpaired.names,
    hpaired.params_instantiate, fun c hc => ?_, fun g hg => ?_⟩
  · exact hpaired.exists_paramIndex? hdistinct (p := ⟨param, value, none⟩)
      (List.mem_filterMap.mpr ⟨_, hstep, rfl⟩)
  · exact hpaired.exists_paramIndex? hdistinct (p := ⟨param, .zero, none⟩)
      (List.mem_filterMap.mpr ⟨_, hstep, rfl⟩)
  · exact ⟨_, Graph.new_eq_ok_iff.mpr ⟨_, hc, rfl⟩,
      congrArg some (hpaired.params_instantiate .sink)⟩
  · refine ⟨_, Graph.add_eq_ok_iff.mpr ⟨_, hg, rfl⟩, ?_⟩
    rw [Graph.get?_push, if_pos rfl, Option.map_some, hpaired.params_instantiate]

/-- A name without a default, then two with one: the name in front gets a zero of its own. -/
theorem build_exact_demo :
    let steps : List Step := [.name "mix", .code "l*=v[i++];", .param "freq" ⟨0x3F000000⟩,
      .workspace 1, .param "gain" ⟨0x41200000⟩]
    let d := build "Voice" 1 1 steps
    NamesFirst steps ∧ d.validate = .ok () ∧
      (Module.instantiate ⟨7⟩ d).params =
        [⟨"mix", .zero, none⟩, ⟨"freq", ⟨0x3F000000⟩, none⟩, ⟨"gain", ⟨0x41200000⟩, none⟩] ∧
      ∃ k, d.paramIndex? "gain" = some k ∧ d.defaultValue k = ⟨0x41200000⟩ := by
  intro steps d
  obtain ⟨hfit, hvalues⟩ := build_exact (d := d) rfl
  have hvalid : d.validate = .ok () := by rfl
  obtain ⟨hparam, -, -, hparams, -⟩ := hvalues hvalid
  exact ⟨hfit.mp (Or.inr ⟨_, rfl, rfl⟩), hvalid, hparams ⟨7⟩,
    hparam "gain" ⟨0x41200000⟩ (by simp [steps])⟩

/-- A name behind a default has none, and no later default makes up for it. -/
example : (build "Voice" 1 1 [.param "freq" .zero, .name "mix", .param "gain" .zero]).validate =
    .error (.invalidDefinition "Voice" (.defaultCount 2 3)) := by
  rfl

end Definition

end Patchbay
