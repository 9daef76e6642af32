import Patchbay.Proofs.WellFormed
import Mathlib.Data.List.NodupEquivFin

/-!
# Why a definition is refused

A definition is looked at rule by rule, and the first rule that it breaks is the reason for which it
is refused.  The rule about names is decided by going through them with those already seen at hand;
this file ties that search to what it looks for.

* `Definition.FirstRepeat` — the least place of a list whose element occurs before it, with
  `firstRepeat?_eq_some_iff`: the search finds it.
* `Definition.Breaks` — **the first rule that a definition breaks**, and the flaw that this is.
* `Definition.validate_exact` — **which definitions pass, why the others do not, and that the names
  of a definition that passes are numbered without gaps.**
-/

namespace Patchbay

namespace Definition

/-! ## The first repeated name -/

/-- The least place of a list whose element occurs before that place. -/
structure FirstRepeat (names : List String) (place : Nat) (name : String) : Prop where
  stands : names[place]? = some name
  occurs : name ∈ names.take place
  least : ∀ other name', names[other]? = some name' → name' ∈ names.take other → place ≤ other

/-- The search finds the least place whose name was seen, before the list or in it. -/
lemma firstRepeat?_eq_some_iff_seen {name : String} : ∀ {seen names : List String},
    firstRepeat? seen names = some name ↔ ∃ place, names[place]? = some name ∧
      name ∈ seen ++ names.take place ∧
      ∀ other name', names[other]? = some name' → name' ∈ seen ++ names.take other → place ≤ other
  | seen, [] => by simp [firstRepeat?]
  | seen, first :: names => by
      rw [firstRepeat?]
      split_ifs with hseen
      · constructor
        · intro h
          cases h
          exact ⟨0, rfl, by simpa using hseen, fun _ _ _ _ => Nat.zero_le _⟩
        · -- nothing comes before the first place
          rintro ⟨place, hname, -, hleast⟩
          have hzero := Nat.le_zero.mp (hleast 0 first rfl (by simpa using hseen))
          simpa [hzero] using hname
      · rw [firstRepeat?_eq_some_iff_seen]
        simp only [List.append_assoc, List.singleton_append]
        constructor
        · rintro ⟨place, hname, hoccurs, hleast⟩
          refine ⟨place + 1, hname, hoccurs, fun other name' hother hmem => ?_⟩
          cases other with
          | zero =>
              cases hother
              exact absurd (by simpa using hmem) hseen
          | succ other => exact Nat.succ_le_succ (hleast other name' hother hmem)
        · rintro ⟨place, hname, hoccurs, hleast⟩
          cases place with
          | zero =>
              cases hname
              exact absurd (by simpa using hoccurs) hseen
          | succ place =>
              exact ⟨place, hname, hoccurs, fun other name' hother hmem =>
                Nat.succ_le_succ_iff.mp (hleast (other + 1) name' hother hmem)⟩

lemma firstRepeat?_eq_some_iff {names : List String} {name : String} :
    firstRepeat? [] names = some name ↔ ∃ place, FirstRepeat names place name := by
  rw [firstRepeat?_eq_some_iff_seen]
  constructor
  · rintro ⟨place, hstands, hoccurs, hleast⟩
    exact ⟨place, hstands, hoccurs, hleast⟩
  · rintro ⟨place, hrepeat⟩
    exact ⟨place, hrepeat.stands, hrepeat.occurs, hrepeat.least⟩

/-! ## The first rule that is broken -/

/-- As many defaults as parameters, or none at all. -/
def DefaultsFit (d : Definition) : Prop :=
  d.paramDefaults = none ∨ ∃ ds, d.paramDefaults = some ds ∧ ds.length = d.paramNames.length

/-- **The first rule that a definition breaks**, and the flaw that this is: it is at most stereo,
its defaults fit, its parameter names are distinct, and if it is the sink it has no outputs. -/
inductive Breaks (d : Definition) : Flaw → Prop where
  | channels (wide : ¬ (d.inChannels ≤ 2 ∧ d.outChannels ≤ 2)) :
      Breaks d (.channels d.inChannels d.outChannels)
  | defaultCount {ds : List Binary32} (stereo : d.inChannels ≤ 2 ∧ d.outChannels ≤ 2)
      (given : d.paramDefaults = some ds) (misfit : ds.length ≠ d.paramNames.length) :
      Breaks d (.defaultCount ds.length d.paramNames.length)
  | duplicate {place : Nat} {name : String} (stereo : d.inChannels ≤ 2 ∧ d.outChannels ≤ 2)
      (fit : d.DefaultsFit) (again : FirstRepeat d.paramNames place name) :
      Breaks d (.duplicate name)
  | sinkOutputs (stereo : d.inChannels ≤ 2 ∧ d.outChannels ≤ 2) (fit : d.DefaultsFit)
      (distinct : d.paramNames.Nodup) (sink : d.name = sinkName) (outputs : d.outChannels ≠ 0) :
      Breaks d .sinkOutputs

variable {d : Definition} {flaw : Flaw}

lemma defaultsFit_iff : d.DefaultsFit ↔ d.defaultFlaw? = none := by
  rw [defaultFlaw?_eq_none_iff, DefaultsFit]
  cases d.paramDefaults <;> simp [paramCount]

lemma channelFlaw?_eq_some_iff : d.channelFlaw? = some flaw ↔
    ¬ (d.inChannels ≤ 2 ∧ d.outChannels ≤ 2) ∧ flaw = .channels d.inChannels d.outChannels := by
  rw [← channelFlaw?_eq_none_iff, channelFlaw?]
  split_ifs <;> simp [eq_comm]

lemma defaultFlaw?_eq_some_iff : d.defaultFlaw? = some flaw ↔
    ∃ ds, d.paramDefaults = some ds ∧ ds.length ≠ d.paramNames.length ∧
      flaw = .defaultCount ds.length d.paramNames.length := by
  rw [defaultFlaw?]
  cases d.paramDefaults <;> simp [paramCount, eq_comm]

lemma nameFlaw?_eq_some_iff : d.nameFlaw? = some flaw ↔
    ∃ place name, FirstRepeat d.paramNames place name ∧ flaw = .duplicate name := by
  simp only [nameFlaw?, Option.map_eq_some_iff, firstRepeat?_eq_some_iff]
  constructor
  · rintro ⟨name, ⟨place, hrepeat⟩, rfl⟩
    exact ⟨place, name, hrepeat, rfl⟩
  · rintro ⟨place, name, hrepeat, rfl⟩
    exact ⟨name, ⟨place, hrepeat⟩, rfl⟩

lemma sinkFlaw?_eq_some_iff : d.sinkFlaw? = some flaw ↔
    d.name = sinkName ∧ d.outChannels ≠ 0 ∧ flaw = .sinkOutputs := by
  simp only [sinkFlaw?, isSink, decide_eq_true_eq]
  split_ifs with h
  · simp [h, eq_comm]
  · simp only [false_iff]
    rintro ⟨hname, hout, -⟩
    exact h ⟨hname, hout⟩

/-- **The flaw that is found** is that of the first rule that is broken. -/
theorem flaw?_eq_some_iff : d.flaw? = some flaw ↔ d.Breaks flaw := by
  simp only [flaw?, Option.orElse_eq_orElse, Option.orElse_eq_or, Option.or_eq_some_iff,
    channelFlaw?_eq_some_iff, defaultFlaw?_eq_some_iff, nameFlaw?_eq_some_iff,
    sinkFlaw?_eq_some_iff, channelFlaw?_eq_none_iff, ← defaultsFit_iff, nameFlaw?_eq_none_iff]
  constructor
  · rintro (⟨hwide, rfl⟩ | ⟨hstereo, ⟨ds, hgiven, hmisfit, rfl⟩ | ⟨hfit, hrest⟩⟩)
    · exact .channels hwide
    · exact .defaultCount hstereo hgiven hmisfit
    · rcases hrest with ⟨place, name, hagain, rfl⟩ | ⟨hdistinct, hsink, houtputs, rfl⟩
      · exact .duplicate hstereo hfit hagain
      · exact .sinkOutputs hstereo hfit hdistinct hsink houtputs
  · intro h
    cases h with
    | channels wide => exact Or.inl ⟨wide, rfl⟩
    | defaultCount stereo given misfit => exact Or.inr ⟨stereo, Or.inl ⟨_, given, misfit, rfl⟩⟩
    | duplicate stereo fit again =>
        exact Or.inr ⟨stereo, Or.inr ⟨fit, Or.inl ⟨_, _, again, rfl⟩⟩⟩
    | sinkOutputs stereo fit distinct sink outputs =>
        exact Or.inr ⟨stereo, Or.inr ⟨fit, Or.inr ⟨distinct, sink, outputs, rfl⟩⟩⟩

/-! ## Places of parameters -/

/-- Among distinct names, each is found at the place where it stands. -/
lemma paramIndex?_eq_some_iff (hdistinct : d.paramNames.Nodup) {name : String} {place : Nat} :
    d.paramIndex? name = some place ↔ d.paramNames[place]? = some name := by
  rw [paramIndex?, List.idxOf?_eq_some_iff, List.getElem?_eq_some_iff]
  constructor
  · rintro ⟨hlt, heq, -⟩
    exact ⟨hlt, heq⟩
  · rintro ⟨hlt, heq⟩
    refine ⟨hlt, heq, fun other hother hsame => ?_⟩
    exact Nat.ne_of_lt hother ((hdistinct.getElem_inj_iff).mp (hsame.trans heq.symm))

/-- **Distinct names are numbered without gaps**, and finding a parameter gives its number. -/
lemma exists_numbering (hdistinct : d.paramNames.Nodup) :
    ∃ number : { name // name ∈ d.paramNames } ≃ Fin d.paramCount,
      ∀ name place, d.paramIndex? name = some place ↔
        ∃ h : name ∈ d.paramNames, (number ⟨name, h⟩ : Nat) = place := by
  refine ⟨(hdistinct.getEquiv d.paramNames).symm, fun name place => ?_⟩
  rw [paramIndex?_eq_some_iff hdistinct]
  constructor
  · intro hplace
    obtain ⟨hlt, heq⟩ := List.getElem?_eq_some_iff.mp hplace
    have hnumber : (hdistinct.getEquiv d.paramNames).symm ⟨name, List.mem_of_getElem? hplace⟩ =
        ⟨place, hlt⟩ := by
      rw [Equiv.symm_apply_eq]
      exact Subtype.ext heq.symm
    exact ⟨List.mem_of_getElem? hplace, congrArg Fin.val hnumber⟩
  · rintro ⟨hmem, rfl⟩
    have hname := (hdistinct.getEquiv d.paramNames).apply_symm_apply ⟨name, hmem⟩
    exact List.getElem?_eq_some_iff.mpr ⟨Fin.isLt _, congrArg Subtype.val hname⟩

/-! ## What passes and what is refused -/

lemma validate_eq_ok_iff_rules : d.validate = .ok () ↔
    d.inChannels ≤ 2 ∧ d.outChannels ≤ 2 ∧ d.DefaultsFit ∧ d.paramNames.Nodup ∧
      (d.name ≠ sinkName ∨ d.outChannels = 0) := by
  rw [validate_eq_ok_iff, flaw?_eq_none_iff, ← defaultFlaw?_eq_none_iff, ← defaultsFit_iff,
    and_assoc, imp_iff_not_or]

lemma validate_eq_error_iff {e : GraphError} :
    d.validate = .error e ↔ ∃ flaw, d.Breaks flaw ∧ e = .invalidDefinition d.name flaw := by
  simp only [← flaw?_eq_some_iff, validate]
  cases d.flaw? <;> simp [eq_comm]

/-- **Validation, exactly.**  A definition passes if and only if it is at most stereo, has no
defaults or as many as parameters, has distinct parameter names, and has no outputs if it is the
sink.  Otherwise the error names the definition and the first of these rules that it breaks; for
repeated names that is the name at the least place before which it occurs.  In a definition that
passes, finding parameters is a bijection from their names to the numbers below their count. -/
theorem validate_exact (d : Definition) :
    (d.validate = .ok () ↔ d.inChannels ≤ 2 ∧ d.outChannels ≤ 2 ∧ d.DefaultsFit ∧
      d.paramNames.Nodup ∧ (d.name ≠ sinkName ∨ d.outChannels = 0)) ∧
    (∀ e, d.validate = .error e ↔ ∃ flaw, d.Breaks flaw ∧ e = .invalidDefinition d.name flaw) ∧
    (d.validate = .ok () → ∃ number : { name // name ∈ d.paramNames } ≃ Fin d.paramCount,
      ∀ name place, d.paramIndex? name = some place ↔
        ∃ h : name ∈ d.paramNames, (number ⟨name, h⟩ : Nat) = place) := by
  refine ⟨validate_eq_ok_iff_rules, fun e => validate_eq_error_iff, fun hvalid => ?_⟩
  obtain ⟨-, -, -, hdistinct, -⟩ := validate_eq_ok_iff_rules.mp hvalid
  exact exists_numbering hdistinct

/-- The two parameters of a mixer that passes, numbered. -/
theorem validate_exact_demo :
    ∃ number : { name // name ∈ ["dry", "wet"] } ≃ Fin 2, number ⟨"wet", by decide⟩ = 1 := by
  obtain ⟨hpasses, -, hnumbering⟩ := validate_exact
    { name := "Mix", inChannels := 2, outChannels := 2, paramNames := ["dry", "wet"] }
  have hvalid := hpasses.mpr ⟨by decide, by decide, Or.inl rfl, by decide, Or.inl (by decide)⟩
  obtain ⟨number, hnumber⟩ := hnumbering hvalid
  obtain ⟨_, hplace⟩ := (hnumber "wet" 1).mp rfl
  exact ⟨number, Fin.ext hplace⟩

/-- Two names are repeated and the sink has outputs: what counts is the repeat that ends first. -/
example :
    ({ name := sinkName, inChannels := 2, outChannels := 1,
       paramNames := ["a", "b", "b", "a"] } : Definition).validate =
      .error (.invalidDefinition sinkName (.duplicate "b")) := by
  rfl

end Definition

end Patchbay
