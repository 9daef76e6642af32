import Patchbay.Proofs.Substitution
import Mathlib.Data.List.Infix

/-!
# Markers that cannot overlap

Whether the two markers of a template overlap depends on the template, unless the markers are such
that no text has room for overlapping occurrences of both.  This file says which markers these are.

* `Overhangs` — the end of one text is the start of another.
* `Apart` — **texts that cannot overlap**: neither contains the other and neither overhangs into the
  other.  The condition is about the two texts alone and can be computed.
* `not_apart_of_append_eq` — overlapping occurrences in one text give a containment or an overhang,
  and `exists_overlap_of_not_apart`: each of these makes a text with overlapping occurrences.
* `Config.overlap_free_exact` — **with markers apart nothing is ever refused for an overlap, and the
  default markers are apart.**
-/

namespace Patchbay

/-! ## Texts that cannot overlap -/

/-- Some part at the end of a text, neither empty nor all of it, is the start of another text. -/
def Overhangs (a b : List Char) : Prop := ∃ part, part ≠ [] ∧ part ≠ a ∧ part <:+ a ∧ part <+: b

/-- **Texts that cannot overlap**, wherever they occur. -/
structure Apart (a b : List Char) : Prop where
  left_ne_nil : a ≠ []
  right_ne_nil : b ≠ []
  not_infix_left : ¬ b <:+: a
  not_infix_right : ¬ a <:+: b
  not_overhangs : ¬ Overhangs a b
  not_overhangs_back : ¬ Overhangs b a

instance (a b : List Char) : Decidable (Overhangs a b) :=
  decidable_of_iff (∃ part ∈ a.tails, part ≠ [] ∧ part ≠ a ∧ part <+: b) <| by
    simp only [Overhangs, List.mem_tails]
    exact exists_congr fun part => ⟨fun ⟨h, h', h'', h'''⟩ => ⟨h', h'', h, h'''⟩,
      fun ⟨h, h', h'', h'''⟩ => ⟨h'', h, h', h'''⟩⟩

instance (a b : List Char) : Decidable (Apart a b) :=
  decidable_of_iff (a ≠ [] ∧ b ≠ [] ∧ ¬ b <:+: a ∧ ¬ a <:+: b ∧ ¬ Overhangs a b ∧ ¬ Overhangs b a)
    ⟨fun ⟨h₁, h₂, h₃, h₄, h₅, h₆⟩ => ⟨h₁, h₂, h₃, h₄, h₅, h₆⟩,
      fun ⟨h₁, h₂, h₃, h₄, h₅, h₆⟩ => ⟨h₁, h₂, h₃, h₄, h₅, h₆⟩⟩

variable {a b gap rest rest' : List Char}

lemma Apart.symm (h : Apart a b) : Apart b a :=
  ⟨h.right_ne_nil, h.left_ne_nil, h.not_infix_right, h.not_infix_left, h.not_overhangs_back,
    h.not_overhangs⟩

/-- **Overlapping occurrences give a containment or an overhang.**  One text stands at the start of
a text, and the other one behind a gap that is shorter than the first. -/
lemma not_apart_of_append_eq (h : a ++ rest = gap ++ (b ++ rest')) (hlt : gap.length < a.length) :
    ¬ Apart a b := by
  intro hapart
  rcases List.append_eq_append_iff.mp h with ⟨excess, rfl, -⟩ | ⟨part, rfl, hpart⟩
  · rw [List.length_append] at hlt
    omega
  have hne : part ≠ [] := by
    rintro rfl
    simp at hlt
  -- what is left of the first text behind the gap is compared with the second
  rcases List.append_eq_append_iff.mp hpart with ⟨tail, rfl, -⟩ | ⟨tail, rfl, -⟩
  · exact hapart.not_infix_left ⟨gap, tail, by simp⟩
  · by_cases hgap : gap = []
    · exact hapart.not_infix_right ⟨[], tail, by simp [hgap]⟩
    · refine hapart.not_overhangs ⟨part, hne, ?_, List.suffix_append _ _, List.prefix_append _ _⟩
      intro heq
      exact hgap (List.self_eq_append_left.mp heq)

/-- A containment or an overhang makes a text with overlapping occurrences. -/
lemma exists_append_eq (hb : b ≠ []) (h : b <:+: a ∨ Overhangs a b) :
    ∃ gap rest rest', a ++ rest = gap ++ (b ++ rest') ∧ gap.length < a.length := by
  rcases h with ⟨gap, tail, rfl⟩ | ⟨part, hpart, -, ⟨gap, rfl⟩, ⟨tail, rfl⟩⟩
  · refine ⟨gap, [], tail, by simp, ?_⟩
    have := List.length_pos_iff.mpr hb
    simp only [List.length_append]
    omega
  · refine ⟨gap, tail, [], by simp, ?_⟩
    have := List.length_pos_iff.mpr hpart
    simp only [List.length_append]
    omega

/-- **Texts that are not apart overlap somewhere.** -/
lemma exists_append_eq_of_not_apart (ha : a ≠ []) (hb : b ≠ []) (h : ¬ Apart a b) :
    (∃ gap rest rest', a ++ rest = gap ++ (b ++ rest') ∧ gap.length < a.length) ∨
      ∃ gap rest rest', b ++ rest = gap ++ (a ++ rest') ∧ gap.length < b.length := by
  by_contra hnone
  obtain ⟨hleft, hright⟩ := not_or.mp hnone
  refine h ⟨ha, hb, fun h => ?_, fun h => ?_, fun h => ?_, fun h => ?_⟩
  · exact hleft (exists_append_eq hb (Or.inl h))
  · exact hright (exists_append_eq ha (Or.inl h))
  · exact hleft (exists_append_eq hb (Or.inr h))
  · exact hright (exists_append_eq ha (Or.inr h))

/-! ## Occurrences in a template -/

variable {template first second before before' : String}

/-- Occurrences of texts that are apart share no character. -/
lemma Apart.not_shared (h : Apart first.toList second.toList) {after after' : String}
    (hfirst : template = before ++ first ++ after)
    (hsecond : template = before' ++ second ++ after') (place : Nat) :
    ¬ Shared before first before' second place := by
  rintro ⟨⟨hle, hlt⟩, hle', hlt'⟩
  wlog horder : before.length ≤ before'.length generalizing first second before before' after after'
  · exact this h.symm hsecond hfirst hle' hlt' hle hlt (Nat.le_of_not_le horder)
  -- the second occurrence starts behind a gap inside of the first
  have happend : before ++ (first ++ after) = before' ++ (second ++ after') := by
    rw [← String.append_assoc, ← String.append_assoc, ← hfirst, hsecond]
  obtain ⟨gap, rfl⟩ := exists_append_of_length_le happend horder
  rw [String.append_assoc, String.append_right_inj] at happend
  have hchars : first.toList ++ after.toList =
      gap.toList ++ (second.toList ++ after'.toList) := by
    simp only [← String.toList_append, happend]
  refine not_apart_of_append_eq hchars ?_ h
  simp only [String.length_append, String.length_toList] at hlt hle' ⊢
  omega

lemma not_missing_of_eq {marker after : String} (hne : marker ≠ "")
    (h : template = before ++ marker ++ after) : ¬ Missing template marker := by
  rintro (hempty | habsent)
  · exact hne hempty
  · exact habsent before after h

/-- Texts that overlap somewhere do so with their first occurrences. -/
lemma exists_shared (hne : first ≠ "") (hne' : second ≠ "") {gap rest rest' : List Char}
    (h : first.toList ++ rest = gap ++ (second.toList ++ rest'))
    (hlt : gap.length < first.toList.length) :
    ∃ template before place, FirstAt template first "" ∧ FirstAt template second before ∧
      Shared "" first before second place := by
  have hoccurs : first ++ .ofList rest = .ofList gap ++ second ++ .ofList rest' := by
    rw [← String.toList_inj]
    simpa using h
  have hfirst : FirstAt (first ++ .ofList rest) first "" :=
    ⟨hne, ⟨.ofList rest, by simp⟩, fun _ _ _ => Nat.zero_le _⟩
  rcases Config.findMarker_cases (first ++ .ofList rest) second with
    ⟨hmissing, -⟩ | ⟨before, hsecond, -⟩
  · exact absurd hoccurs (hmissing.resolve_left hne' _ _)
  · have hle := hsecond.leftmost _ _ hoccurs
    have hpos : second.length ≠ 0 := by simpa using hne'
    refine ⟨_, before, _, hfirst, hsecond, shared_max hne hne' ?_ ?_⟩
    · rw [String.length_append, String.length_empty]
      omega
    · rw [String.length_ofList] at hle
      rw [String.length_toList] at hlt
      rw [String.empty_append]
      omega

namespace Config

variable {config : Config}

/-- The markers of a configuration cannot overlap. -/
def MarkersApart (config : Config) : Prop :=
  Apart config.valuesMarker.toList config.codeMarker.toList

instance (config : Config) : Decidable config.MarkersApart :=
  inferInstanceAs (Decidable (Apart _ _))

/-- With markers apart, a template has both of them in separate places or lacks one. -/
lemma MarkersApart.outcome (h : config.MarkersApart) (template : String) (texts : Voice) :
    (∃ script, config.substitute template texts = .ok script) ∨
      ∃ marker, (marker = config.valuesMarker ∨ marker = config.codeMarker) ∧
        Missing template marker ∧
        config.substitute template texts = .error (.missingMarker marker) := by
  obtain ⟨answer, hverdict⟩ := config.exists_verdict template
  rw [substitute_eq_of_verdict hverdict]
  cases hverdict with
  | noValues missing => exact Or.inr ⟨_, Or.inl rfl, missing, rfl⟩
  | noCode found missing => exact Or.inr ⟨_, Or.inr rfl, missing, rfl⟩
  | overlap valuesAt codeAt shared =>
      obtain ⟨after, hvalues⟩ := valuesAt.occurs
      obtain ⟨after', hcode⟩ := codeAt.occurs
      exact absurd shared (h.not_shared hvalues hcode _)
  | valuesFirst parts => exact Or.inl ⟨_, rfl⟩
  | codeFirst parts => exact Or.inl ⟨_, rfl⟩

lemma MarkersApart.substitute_ne_overlap (h : config.MarkersApart) (template : String)
    (texts : Voice) (values code : String) :
    config.substitute template texts ≠ .error (.markerOverlap values code) := by
  rcases h.outcome template texts with ⟨script, hok⟩ | ⟨marker, -, -, herror⟩
  · rw [hok]
    exact nofun
  · rw [herror]
    exact nofun

/-- A template that has both markers is accepted. -/
lemma MarkersApart.exists_substitute (h : config.MarkersApart) {template : String}
    (hvalues : ¬ Missing template config.valuesMarker)
    (hcode : ¬ Missing template config.codeMarker) (texts : Voice) :
    ∃ script, config.substitute template texts = .ok script := by
  rcases h.outcome template texts with hok | ⟨marker, rfl | rfl, hmissing, -⟩
  · exact hok
  · exact absurd hmissing hvalues
  · exact absurd hmissing hcode

/-- Markers that are not apart overlap in some template. -/
lemma exists_overlap_of_not_apart (hvalues : config.valuesMarker ≠ "")
    (hcode : config.codeMarker ≠ "") (h : ¬ config.MarkersApart) :
    ∃ template, ∀ texts, config.substitute template texts =
      .error (.markerOverlap config.valuesMarker config.codeMarker) := by
  rcases exists_append_eq_of_not_apart (by simpa using hvalues) (by simpa using hcode) h with
    ⟨_, _, _, hoverlap, hlt⟩ | ⟨_, _, _, hoverlap, hlt⟩
  · obtain ⟨template, before, place, hfirst, hsecond, hshared⟩ :=
      exists_shared hvalues hcode hoverlap hlt
    exact ⟨template, fun texts => substitute_eq_of_verdict (.overlap hfirst hsecond hshared)⟩
  · obtain ⟨template, before, place, hfirst, hsecond, hshared⟩ :=
      exists_shared hcode hvalues hoverlap hlt
    exact ⟨template, fun texts => substitute_eq_of_verdict (.overlap hsecond hfirst hshared.symm)⟩

/-- The default markers are apart. -/
lemma markersApart_default : ({} : Config).MarkersApart := by
  decide +kernel

/-- What is linked from graphs is refused for a graph or as what is linked from their patches. -/
lemma linkGraphs_cases (config : Config) (template : String) (graphs : List Graph) :
    (∃ error, compileAll graphs = .error error ∧
      config.linkGraphs template graphs = .error (.graph error)) ∨
    ∃ patches, compileAll graphs = .ok patches ∧
      config.linkGraphs template graphs = config.linkPatches template patches := by
  rw [linkGraphs]
  cases compileAll graphs with
  | error error => exact Or.inl ⟨error, rfl, rfl⟩
  | ok patches => exact Or.inr ⟨patches, rfl, rfl⟩

/-- **When markers overlap.**  With markers that are apart, no way of linking is ever refused for an
overlap, whatever the template is.  Other markers, unless one is empty, overlap in some template.
The default markers are apart, so a template that contains both of them anywhere is accepted: from
texts, voices and patches always, and from graphs if they compile. -/
theorem overlap_free_exact :
    (∀ config : Config, config.MarkersApart → ∀ template values code,
      (∀ texts, config.substitute template texts ≠ .error (.markerOverlap values code)) ∧
      (∀ voices, config.link template voices ≠ .error (.markerOverlap values code)) ∧
      (∀ patches, config.linkPatches template patches ≠ .error (.markerOverlap values code)) ∧
      ∀ graphs, config.linkGraphs template graphs ≠ .error (.markerOverlap values code)) ∧
    (∀ config : Config, config.valuesMarker ≠ "" → config.codeMarker ≠ "" →
      ¬ config.MarkersApart → ∃ template, ∀ texts, config.substitute template texts =
        .error (.markerOverlap config.valuesMarker config.codeMarker)) ∧
    ({} : Config).MarkersApart ∧
    ∀ template : String, (∃ before after, template = before ++ "//!VALUES" ++ after) →
      (∃ before after, template = before ++ "//!CODE" ++ after) →
      (∀ texts, ∃ script, ({} : Config).substitute template texts = .ok script) ∧
      (∀ voices, ∃ script, ({} : Config).link template voices = .ok script) ∧
      (∀ patches, ∃ script, ({} : Config).linkPatches template patches = .ok script) ∧
      ∀ graphs patches, compileAll graphs = .ok patches →
        ∃ script, ({} : Config).linkGraphs template graphs = .ok script := by
  refine ⟨fun config hapart template values code => ?_,
    fun config => exists_overlap_of_not_apart, markersApart_default, ?_⟩
  · have hnever := fun texts => hapart.substitute_ne_overlap template texts values code
    refine ⟨hnever, fun voices => hnever _, fun patches => hnever _, fun graphs => ?_⟩
    rcases config.linkGraphs_cases template graphs with ⟨error, -, heq⟩ | ⟨patches, -, heq⟩
    · rw [heq]
      exact nofun
    · rw [heq]
      exact hnever _
  · rintro template ⟨before, after, hvalues⟩ ⟨before', after', hcode⟩
    have haccepted := markersApart_default.exists_substitute
      (not_missing_of_eq (by decide) hvalues) (not_missing_of_eq (by decide) hcode)
    refine ⟨haccepted, fun voices => haccepted _, fun patches => haccepted _, ?_⟩
    intro graphs patches hpatches
    rcases linkGraphs_cases {} template graphs with ⟨error, herror, -⟩ | ⟨patches', -, heq⟩
    · cases hpatches.symm.trans herror
    · rw [heq]
      exact haccepted _

/-- Markers that are apart although each overlaps with itself, and a template with one of the
default markers on both sides of the other. -/
theorem overlap_free_exact_demo :
    (∀ template texts, ({ valuesMarker := "aba", codeMarker := "cac" } : Config).substitute template
      texts ≠ .error (.markerOverlap "aba" "cac")) ∧
    ∃ script, ({} : Config).substitute "a//!CODE//!VALUES//!CODEb" ⟨"[]", "l=0;"⟩ = .ok script := by
  obtain ⟨hnever, -, -, haccepted⟩ := overlap_free_exact
  constructor
  · intro template texts
    exact (hnever _ (by decide +kernel) template _ _).1 texts
  · exact (haccepted _ ⟨"a//!CODE", "//!CODEb", rfl⟩ ⟨"a", "//!VALUES//!CODEb", rfl⟩).1 _

end Config

end Patchbay
