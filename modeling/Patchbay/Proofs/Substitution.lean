import Patchbay.Proofs.Linking

/-!
# What substitution does

Substitution looks for the two markers of a template, puts a text in the place of each, and keeps
everything else.  Templates, markers and texts are arbitrary: one marker can contain the other or
share characters with it, and a text can contain a marker.

* `FirstAt`, `Missing` — what it is for a marker to occur first at a place, or to be of no use.
* `Shared` — the characters that two occurrences have in common.
* `Parts` — a template cut at the first occurrences of two markers.
* `Config.substituteBy`, `Config.Substitutes` — substitution with any way of finding and replacing,
  and what makes such a way right, **whatever the unit is in which places are counted**.
* `Config.Verdict` — what becomes of a template, and what every right way follows.
* `Config.substituteBytes` — substitution that counts bytes, where a slice can fail.
* `Config.substitute_exact` — **when substitution succeeds, what the script is, which error there
  is, and that counting in bytes leads to the same.**
-/

namespace Patchbay

/-! ## Occurrences -/

/-- A marker that is not empty occurs in a text behind some part of it, and nowhere further left. -/
structure FirstAt (text marker before : String) : Prop where
  ne_empty : marker ≠ ""
  occurs : ∃ after, text = before ++ marker ++ after
  leftmost : ∀ earlier after, text = earlier ++ marker ++ after → before.length ≤ earlier.length

/-- A marker that is empty or does not occur in a text. -/
def Missing (text marker : String) : Prop :=
  marker = "" ∨ ∀ before after, text ≠ before ++ marker ++ after

/-- The occurrences of two markers behind some parts of a text share the character at a place. -/
def Shared (before marker before' marker' : String) (place : Nat) : Prop :=
  (before.length ≤ place ∧ place < (before ++ marker).length) ∧
    before'.length ≤ place ∧ place < (before' ++ marker').length

/-- **A template cut at its markers**: each stands where it occurs first, and the one that comes
first ends before the other starts. -/
structure Parts (template first second pre mid post : String) : Prop where
  eq : template = pre ++ first ++ mid ++ second ++ post
  firstAt : FirstAt template first pre
  secondAt : FirstAt template second (pre ++ first ++ mid)

variable {text marker before : String}

/-- No earlier place holds the marker. -/
lemma occurrence?_leftmost {marker : List Char} :
    ∀ {text : List Char} {k : Nat}, occurrence? marker text = some k →
      ∀ earlier after, text = earlier ++ marker ++ after → k ≤ earlier.length
  | [], k, h => by simp [occurrence?] at h
  | c :: text, k, h => by
      intro earlier after heq
      rw [occurrence?] at h
      split_ifs at h with hprefix
      · cases h
        exact Nat.zero_le _
      · rcases Option.map_eq_some_iff.mp h with ⟨j, hj, rfl⟩
        -- an occurrence at the very start would have been taken
        cases earlier with
        | nil =>
            refine absurd (List.isPrefixOf_iff_prefix.mpr ?_) hprefix
            exact ⟨after, heq.symm⟩
        | cons d earlier =>
            rw [List.cons_append, List.cons_append, List.cons.injEq] at heq
            exact Nat.succ_le_succ (occurrence?_leftmost hj earlier after heq.2)

/-- A marker that is not found does not occur. -/
lemma ne_of_occurrence?_eq_none {marker : List Char} (hmarker : marker ≠ []) :
    ∀ {text : List Char}, occurrence? marker text = none →
      ∀ before after, text ≠ before ++ marker ++ after
  | [], _ => by simp [hmarker]
  | c :: text, h => by
      intro before after heq
      rw [occurrence?] at h
      split_ifs at h with hprefix
      cases before with
      | nil => exact hprefix (List.isPrefixOf_iff_prefix.mpr ⟨after, heq.symm⟩)
      | cons d before =>
          rw [List.cons_append, List.cons_append, List.cons.injEq] at heq
          exact ne_of_occurrence?_eq_none hmarker (Option.map_eq_none_iff.mp h) before after heq.2

/-- The places of two parts at the start of a text tell which of them goes on. -/
lemma exists_append_of_length_le {p q r s : String} (h : p ++ r = q ++ s)
    (hle : p.length ≤ q.length) : ∃ t, q = p ++ t := by
  have hp : p.toList <+: (p ++ r).toList := by simp
  have hq : q.toList <+: (p ++ r).toList := by simp [h]
  rcases List.prefix_of_prefix_length_le hp hq hle with ⟨t, ht⟩
  refine ⟨.ofList t, ?_⟩
  rw [← String.toList_inj]
  simp [ht]

/-- There is only one first occurrence. -/
lemma FirstAt.unique {other : String} (h : FirstAt text marker before)
    (hother : FirstAt text marker other) : before = other := by
  rcases h.occurs with ⟨after, heq⟩
  rcases hother.occurs with ⟨after', heq'⟩
  have hlength : before.length = other.length :=
    Nat.le_antisymm (h.leftmost _ _ heq') (hother.leftmost _ _ heq)
  have happend : before ++ (marker ++ after) = other ++ (marker ++ after') := by
    rw [← String.append_assoc, ← heq, heq', String.append_assoc]
  rcases exists_append_of_length_le happend (Nat.le_of_eq hlength) with ⟨t, rfl⟩
  have ht : t = "" := by simpa using hlength
  simp [ht]

/-- A marker whose first occurrence is known is not missing. -/
lemma FirstAt.not_missing (h : FirstAt text marker before) : ¬ Missing text marker := by
  rintro (hempty | habsent)
  · exact h.ne_empty hempty
  · rcases h.occurs with ⟨after, heq⟩
    exact habsent before after heq

/-- Behind a part that ends before another one starts, something comes in between. -/
lemma exists_parts {first second pre before : String} (hfirst : FirstAt text first pre)
    (hsecond : FirstAt text second before) (hle : (pre ++ first).length ≤ before.length) :
    ∃ mid post, Parts text first second pre mid post := by
  rcases hfirst.occurs with ⟨after, heq⟩
  rcases hsecond.occurs with ⟨post, heq'⟩
  have happend : pre ++ first ++ after = before ++ (second ++ post) := by
    rw [← heq, heq', String.append_assoc]
  rcases exists_append_of_length_le happend hle with ⟨mid, rfl⟩
  exact ⟨mid, post, heq', hfirst, hsecond⟩

/-- What stands behind a marker shares nothing with it. -/
lemma not_shared_behind (pre first mid second : String) (place : Nat) :
    ¬ Shared pre first (pre ++ first ++ mid) second place := by
  rintro ⟨⟨-, hlt⟩, hle, -⟩
  rw [String.length_append] at hle
  omega

lemma Shared.symm {marker' before' : String} {place : Nat}
    (h : Shared before marker before' marker' place) : Shared before' marker' before marker place :=
  And.symm h

/-- Two occurrences that start before the other ends share a character. -/
lemma shared_max {marker' before' : String} (hmarker : marker ≠ "") (hmarker' : marker' ≠ "")
    (hlt : before.length < (before' ++ marker').length)
    (hlt' : before'.length < (before ++ marker).length) :
    Shared before marker before' marker' (max before.length before'.length) := by
  have hpos : marker.length ≠ 0 := by simpa using hmarker
  have hpos' : marker'.length ≠ 0 := by simpa using hmarker'
  simp only [Shared, String.length_append] at hlt hlt' ⊢
  omega

/-! ## The search -/

namespace Config

/-- Where the search for a marker succeeds, it finds the first occurrence. -/
lemma findMarker_cases (template marker : String) :
    Missing template marker ∧ findMarker template marker = .error (.missingMarker marker) ∨
      ∃ before, FirstAt template marker before ∧
        findMarker template marker = .ok ⟨before.length, (before ++ marker).length⟩ := by
  by_cases hempty : marker = ""
  · exact Or.inl ⟨Or.inl hempty, by simp [findMarker, locate?, hempty]⟩
  have hmarker : marker.toList ≠ [] := by simpa using hempty
  rw [findMarker, locate?, if_neg hmarker]
  cases hplace : occurrence? marker.toList template.toList with
  | none =>
      refine Or.inl ⟨Or.inr fun before after heq => ?_, rfl⟩
      refine ne_of_occurrence?_eq_none hmarker hplace before.toList after.toList ?_
      simp [heq]
  | some place =>
      have hdrop := drop_occurrence? hplace
      have heq : template = .ofList (template.toList.take place) ++ marker ++
          .ofList (template.toList.drop (place + marker.toList.length)) := by
        rw [← String.toList_inj]
        simp [← hdrop]
      have hlength : (String.ofList (template.toList.take place)).length = place := by
        rw [← String.length_toList, String.toList_ofList, List.length_take_of_le]
        by_contra hlt
        rw [List.drop_eq_nil_of_le (Nat.le_of_not_le hlt)] at hdrop
        exact hmarker (List.append_eq_nil_iff.mp hdrop.symm).1
      refine Or.inr ⟨.ofList (template.toList.take place), ⟨hempty, ⟨_, heq⟩, ?_⟩, ?_⟩
      · intro earlier after hearlier
        rw [hlength]
        exact occurrence?_leftmost hplace earlier.toList after.toList (by simp [hearlier])
      · simp [hlength, String.length_toList]

/-! ## Substituting in any unit -/

variable {α : Type}

/-- Substitution with a given way of finding a marker and of replacing two spans. -/
def substituteBy (config : Config) (find : String → Except LinkError Span)
    (replace : Span → String → Span → String → α) (texts : Voice) : Except LinkError α := do
  let values ← find config.valuesMarker
  let code ← find config.codeMarker
  require (values.overlaps code = false) (.markerOverlap config.valuesMarker config.codeMarker)
  return if values.start < code.start then replace values texts.values code texts.code
    else replace code texts.code values texts.values

/-- **A right way to substitute**: places are counted in some unit in which no text is empty but
the empty one, a marker is found where it occurs first, and what is replaced are the markers. -/
structure Substitutes (template : String) (measure : String → Nat)
    (find : String → Except LinkError Span) (replace : Span → String → Span → String → α)
    (result : String → α) : Prop where
  lt_append : ∀ before part, part ≠ "" → measure before < measure (before ++ part)
  find_missing : ∀ marker, Missing template marker → find marker = .error (.missingMarker marker)
  find_firstAt : ∀ marker before, FirstAt template marker before →
    find marker = .ok ⟨measure before, measure (before ++ marker)⟩
  replace_parts : ∀ pre first mid second post x y,
    template = pre ++ first ++ mid ++ second ++ post →
      replace ⟨measure pre, measure (pre ++ first)⟩ x
        ⟨measure (pre ++ first ++ mid), measure (pre ++ first ++ mid ++ second)⟩ y =
          result (pre ++ x ++ mid ++ y ++ post)

variable {config : Config} {template : String} {texts : Voice} {measure : String → Nat}
  {find : String → Except LinkError Span} {replace : Span → String → Span → String → α}
  {result : String → α}

/-- Once both markers are found, their spans decide. -/
lemma substituteBy_of_found {values code : Span} (hvalues : find config.valuesMarker = .ok values)
    (hcode : find config.codeMarker = .ok code) :
    config.substituteBy find replace texts =
      if values.overlaps code then .error (.markerOverlap config.valuesMarker config.codeMarker)
      else .ok (if values.start < code.start then replace values texts.values code texts.code
        else replace code texts.code values texts.values) := by
  rw [substituteBy, hvalues, hcode]
  cases hoverlaps : values.overlaps code with
  | true => simp [require, bind, Except.bind, hoverlaps]
  | false => simp [require, bind, Except.bind, pure, Except.pure, hoverlaps]

/-- **What becomes of a template**, as a function of the texts: a marker is missing, the two share
characters, or the template is cut at both of them in one of the two orders. -/
inductive Verdict (config : Config) (template : String) :
    (Voice → Except LinkError String) → Prop where
  | noValues (missing : Missing template config.valuesMarker) :
      Verdict config template fun _ => .error (.missingMarker config.valuesMarker)
  | noCode (found : ¬ Missing template config.valuesMarker)
      (missing : Missing template config.codeMarker) :
      Verdict config template fun _ => .error (.missingMarker config.codeMarker)
  | overlap {values code : String} {place : Nat}
      (valuesAt : FirstAt template config.valuesMarker values)
      (codeAt : FirstAt template config.codeMarker code)
      (shared : Shared values config.valuesMarker code config.codeMarker place) :
      Verdict config template fun _ =>
        .error (.markerOverlap config.valuesMarker config.codeMarker)
  | valuesFirst {pre mid post : String}
      (parts : Parts template config.valuesMarker config.codeMarker pre mid post) :
      Verdict config template fun texts =>
        .ok (pre ++ texts.values ++ mid ++ texts.code ++ post)
  | codeFirst {pre mid post : String}
      (parts : Parts template config.codeMarker config.valuesMarker pre mid post) :
      Verdict config template fun texts =>
        .ok (pre ++ texts.code ++ mid ++ texts.values ++ post)

/-- Every template has a verdict. -/
lemma exists_verdict (config : Config) (template : String) :
    ∃ answer, config.Verdict template answer := by
  rcases findMarker_cases template config.valuesMarker with ⟨hmissing, -⟩ | ⟨values, hvalues, -⟩
  · exact ⟨_, .noValues hmissing⟩
  rcases findMarker_cases template config.codeMarker with ⟨hmissing, -⟩ | ⟨code, hcode, -⟩
  · exact ⟨_, .noCode hvalues.not_missing hmissing⟩
  rcases Nat.lt_or_ge code.length (values ++ config.valuesMarker).length with hlt | hle
  · rcases Nat.lt_or_ge values.length (code ++ config.codeMarker).length with hlt' | hle'
    · exact ⟨_, .overlap hvalues hcode (shared_max hvalues.ne_empty hcode.ne_empty hlt' hlt)⟩
    · rcases exists_parts hcode hvalues hle' with ⟨mid, post, hparts⟩
      exact ⟨_, .codeFirst hparts⟩
  · rcases exists_parts hvalues hcode hle with ⟨mid, post, hparts⟩
    exact ⟨_, .valuesFirst hparts⟩

namespace Substitutes

variable (h : Substitutes template measure find replace result)
include h

/-- Parts at the start of the template that are in order in characters are so in every unit. -/
lemma measure_lt {p q r s : String} (hp : template = p ++ r) (hq : template = q ++ s)
    (hlt : p.length < q.length) : measure p < measure q := by
  rcases exists_append_of_length_le (hp.symm.trans hq) (Nat.le_of_lt hlt) with ⟨t, rfl⟩
  refine h.lt_append p t ?_
  rintro rfl
  simp at hlt

/-- Occurrences that share a character overlap in every unit. -/
lemma overlaps_of_shared {first second before before' : String} {place : Nat}
    (hfirst : FirstAt template first before) (hsecond : FirstAt template second before')
    (hshared : Shared before first before' second place) :
    Span.overlaps ⟨measure before, measure (before ++ first)⟩
      ⟨measure before', measure (before' ++ second)⟩ = true := by
  rcases hshared with ⟨⟨hle, hlt⟩, hle', hlt'⟩
  rcases hfirst.occurs with ⟨after, heq⟩
  rcases hsecond.occurs with ⟨after', heq'⟩
  have hbefore : template = before ++ (first ++ after) := by rw [heq, String.append_assoc]
  have hbefore' : template = before' ++ (second ++ after') := by rw [heq', String.append_assoc]
  simp only [Span.overlaps, Bool.and_eq_true, decide_eq_true_eq]
  exact ⟨h.measure_lt hbefore heq' (Nat.lt_of_le_of_lt hle hlt'),
    h.measure_lt hbefore' heq (Nat.lt_of_le_of_lt hle' hlt)⟩

/-- A part does not get smaller by going on. -/
lemma le_append (before part : String) : measure before ≤ measure (before ++ part) := by
  by_cases hpart : part = ""
  · simp [hpart]
  · exact Nat.le_of_lt (h.lt_append _ _ hpart)

/-- A marker starts before one that stands behind it. -/
lemma start_lt {first second pre mid post : String}
    (hparts : Parts template first second pre mid post) :
    measure pre < measure (pre ++ first ++ mid) :=
  calc measure pre
      < measure (pre ++ first) := h.lt_append _ _ hparts.firstAt.ne_empty
    _ ≤ measure (pre ++ first ++ mid) := h.le_append _ _

/-- A marker ends before one that stands behind it starts. -/
lemma not_overlaps (pre first mid second : String) :
    let span : Span := ⟨measure pre, measure (pre ++ first)⟩
    let span' : Span := ⟨measure (pre ++ first ++ mid), measure (pre ++ first ++ mid ++ second)⟩
    ¬ span.overlaps span' = true ∧ ¬ span'.overlaps span = true := by
  have hle := h.le_append (pre ++ first) mid
  simp only [Span.overlaps, Bool.and_eq_true, decide_eq_true_eq]
  omega

/-- **Every right way to substitute follows the verdict.** -/
lemma eq_of_verdict {answer : Voice → Except LinkError String}
    (hverdict : config.Verdict template answer) :
    config.substituteBy find replace texts = (answer texts).map result := by
  cases hverdict with
  | noValues missing =>
      rw [substituteBy, h.find_missing _ missing]
      rfl
  | noCode found missing =>
      rcases findMarker_cases template config.valuesMarker with ⟨hmissing, -⟩ | ⟨_, hvalues, -⟩
      · contradiction
      · rw [substituteBy, h.find_firstAt _ _ hvalues, h.find_missing _ missing]
        rfl
  | overlap valuesAt codeAt shared =>
      rw [substituteBy_of_found (h.find_firstAt _ _ valuesAt) (h.find_firstAt _ _ codeAt),
        if_pos (h.overlaps_of_shared valuesAt codeAt shared)]
      rfl
  | valuesFirst parts =>
      rw [substituteBy_of_found (h.find_firstAt _ _ parts.firstAt)
        (h.find_firstAt _ _ parts.secondAt), if_neg (h.not_overlaps _ _ _ _).1,
        if_pos (h.start_lt parts), h.replace_parts _ _ _ _ _ _ _ parts.eq]
      rfl
  | codeFirst parts =>
      rw [substituteBy_of_found (h.find_firstAt _ _ parts.secondAt)
        (h.find_firstAt _ _ parts.firstAt), if_neg (h.not_overlaps _ _ _ _).2,
        if_neg (Nat.not_lt_of_gt (h.start_lt parts)), h.replace_parts _ _ _ _ _ _ _ parts.eq]
      rfl

end Substitutes

/-! ## Counting characters -/

/-- Replacing two spans keeps what is around them. -/
lemma splice_append (pre first mid second post x y : List Char) :
    splice (pre ++ first ++ mid ++ second ++ post) ⟨pre.length, (pre ++ first).length⟩ x
      ⟨(pre ++ first ++ mid).length, (pre ++ first ++ mid ++ second).length⟩ y =
        pre ++ x ++ mid ++ y ++ post := by
  have hmid : (pre ++ first ++ mid ++ second ++ post).drop (pre ++ first).length =
      mid ++ (second ++ post) := by
    rw [List.append_assoc (pre ++ first ++ mid), List.append_assoc (pre ++ first), List.drop_left]
  have hlength : (pre ++ first ++ mid).length - (pre ++ first).length = mid.length := by
    simp only [List.length_append]
    omega
  have hpre : (pre ++ first ++ mid ++ second ++ post).take pre.length = pre := by
    simp only [List.append_assoc, List.take_left]
  simp only [splice, hmid, hlength, hpre, List.take_left, List.drop_left]

/-- Substitution counts characters. -/
lemma substitutes_characters (template : String) :
    Substitutes template String.length (findMarker template)
      (fun first x second y =>
        String.ofList (splice template.toList first x.toList second y.toList)) id where
  lt_append before part hpart := by
    have hpos : part.length ≠ 0 := by simpa using hpart
    rw [String.length_append]
    omega
  find_missing marker hmissing := by
    rcases findMarker_cases template marker with ⟨-, herror⟩ | ⟨before, hfirst, -⟩
    · exact herror
    · exact absurd hmissing hfirst.not_missing
  find_firstAt marker before hfirst := by
    rcases findMarker_cases template marker with ⟨hmissing, -⟩ | ⟨before', hfirst', hok⟩
    · exact absurd hmissing hfirst.not_missing
    · rw [hok, hfirst.unique hfirst']
  replace_parts := by
    rintro pre first mid second post x y rfl
    have hsplice := splice_append pre.toList first.toList mid.toList second.toList post.toList
      x.toList y.toList
    simp only [← String.toList_append, String.length_toList] at hsplice
    rw [hsplice, String.ofList_toList, id]

lemma substitute_eq_substituteBy :
    config.substitute template texts =
      config.substituteBy (findMarker template) (fun first x second y =>
        String.ofList (splice template.toList first x.toList second y.toList)) texts := by
  simp only [substitute, substituteBy, apply_ite String.ofList]

/-! ## Counting bytes -/

/-- The bytes of a text from one offset to another, if neither is inside a character or outside
the text and they are in order. -/
def byteSlice? (text : String) (start stop : Nat) : Option String := do
  let first ← text.pos? ⟨start⟩
  let last ← text.pos? ⟨stop⟩
  let slice ← text.slice? first last
  return slice.copy

/-- The span of the bytes of a marker in a template, which has to contain it. -/
def findBytes (template marker : String) : Except LinkError Span :=
  if marker = "" then .error (.missingMarker marker)
  else
    match template.find? marker with
    | some start => .ok ⟨start.offset.byteIdx, start.offset.byteIdx + marker.utf8ByteSize⟩
    | none => .error (.missingMarker marker)

/-- A text with two spans of bytes replaced, if its other bytes are three slices. -/
def spliceBytes? (template : String) (first : Span) (firstText : String) (second : Span)
    (secondText : String) : Option String := do
  let pre ← byteSlice? template 0 first.start
  let mid ← byteSlice? template first.stop second.start
  let post ← byteSlice? template second.stop template.utf8ByteSize
  return pre ++ firstText ++ mid ++ secondText ++ post

/-- **Substitution that counts bytes.**  There is no script where a slice fails. -/
def substituteBytes (config : Config) (template : String) (texts : Voice) :
    Except LinkError (Option String) :=
  config.substituteBy (findBytes template) (spliceBytes? template) texts

/-- The offset behind a part of a text is one between characters. -/
lemma exists_pos? {text before after : String} (h : text = before ++ after) :
    ∃ p : text.Pos, text.pos? ⟨before.utf8ByteSize⟩ = some p ∧ p.Splits before after := by
  subst h
  have hvalid : String.Pos.Raw.IsValidForSlice (before ++ after).toSlice ⟨before.utf8ByteSize⟩ := by
    rw [← String.Pos.Raw.isValid_copy_iff, String.copy_toSlice]
    exact String.Pos.Raw.isValid_iff_exists_append.mpr ⟨before, after, rfl, rfl⟩
  refine ⟨.ofEqAppend rfl, ?_, String.Pos.splits_ofEqAppend rfl⟩
  rw [String.pos?, String.Slice.pos?,
    dif_pos (String.Pos.Raw.isValidForSlice_eq_true_iff.mpr hvalid)]
  rfl

/-- A part of a text is the slice between the offsets around it. -/
lemma byteSlice?_eq_some {text : String} (before part after : String)
    (h : text = before ++ part ++ after) :
    byteSlice? text before.utf8ByteSize (before ++ part).utf8ByteSize = some part := by
  have h' : text = before ++ (part ++ after) := by rw [h, String.append_assoc]
  rcases exists_pos? h' with ⟨first, hfirst, hsplits⟩
  rcases exists_pos? h with ⟨last, hlast, hsplits'⟩
  rcases String.copy_slice_eq_iff_splits.mpr ⟨_, _, hsplits, hsplits'⟩ with ⟨hle, hcopy⟩
  rw [byteSlice?, hfirst, hlast]
  simp [String.slice?, hle, hcopy]

/-- The bytes of a marker are found where its characters are. -/
lemma findBytes_of_firstAt (h : FirstAt template marker before) :
    findBytes template marker = .ok ⟨before.utf8ByteSize, (before ++ marker).utf8ByteSize⟩ := by
  have := String.Slice.Pattern.Model.ForwardStringSearcher.strictPatternModel h.ne_empty
  have := String.Slice.Pattern.Model.ForwardStringSearcher.lawfulToForwardSearcherModel h.ne_empty
  rcases h.occurs with ⟨after, heq⟩
  have hcopy : template.toSlice.copy = before ++ (marker ++ after) := by
    rw [String.copy_toSlice, heq, String.append_assoc]
  have hsplits := String.Slice.Pos.splits_ofEqAppend hcopy
  have hfind : template.toSlice.find? marker = some (.ofEqAppend hcopy) := by
    rw [String.Slice.Pattern.Model.find?_eq_some_iff]
    simp only [String.Slice.Pattern.Model.ForwardStringSearcher.matchesAt_iff_splits]
    refine ⟨⟨_, _, hsplits⟩, ?_⟩
    rintro earlier hlt ⟨part, rest, hpart⟩
    -- a match at an earlier offset is one behind fewer characters
    have hle := h.leftmost part rest (by
      rw [String.append_assoc, ← hpart.eq_append, String.copy_toSlice])
    rcases (hpart.lt_iff_exists_eq_append hsplits).mp hlt with ⟨t, ht, rfl, -⟩
    have hpos : t.length ≠ 0 := by simpa using ht
    rw [String.length_append] at hle
    omega
  rw [findBytes, if_neg h.ne_empty, String.find?_eq_find?_toSlice, hfind]
  have := hsplits.offset_eq_rawEndPos
  simp [this]

/-- The bytes of a marker that is missing are not found. -/
lemma findBytes_of_missing (h : Missing template marker) :
    findBytes template marker = .error (.missingMarker marker) := by
  rw [findBytes]
  split_ifs with hempty
  · rfl
  have := String.Slice.Pattern.Model.ForwardStringSearcher.strictPatternModel hempty
  have := String.Slice.Pattern.Model.ForwardStringSearcher.lawfulToForwardSearcherModel hempty
  have hfind : template.toSlice.find? marker = none := by
    rw [String.Slice.Pattern.Model.find?_eq_none_iff]
    simp only [String.Slice.Pattern.Model.ForwardStringSearcher.matchesAt_iff_splits]
    rintro p ⟨part, rest, hpart⟩
    refine h.resolve_left hempty part rest ?_
    rw [String.append_assoc, ← hpart.eq_append, String.copy_toSlice]
  rw [String.find?_eq_find?_toSlice, hfind]
  rfl

/-- Substitution can as well count bytes. -/
lemma substitutes_bytes (template : String) :
    Substitutes template String.utf8ByteSize (findBytes template) (spliceBytes? template) some where
  lt_append before part hpart := by
    have hpos : part.utf8ByteSize ≠ 0 := by simpa using hpart
    rw [String.utf8ByteSize_append]
    omega
  find_missing _ := findBytes_of_missing
  find_firstAt _ _ := findBytes_of_firstAt
  replace_parts := by
    intro pre first mid second post x y heq
    have hpre : template = "" ++ pre ++ (first ++ mid ++ second ++ post) := by
      simp [heq, String.append_assoc]
    have hmid : template = pre ++ first ++ mid ++ (second ++ post) := by
      simp [heq, String.append_assoc]
    have hpost : template = pre ++ first ++ mid ++ second ++ post ++ "" := by simp [heq]
    have hpre := byteSlice?_eq_some "" pre _ hpre
    have hmid := byteSlice?_eq_some (pre ++ first) mid _ hmid
    have hpost := byteSlice?_eq_some (pre ++ first ++ mid ++ second) post "" hpost
    rw [String.utf8ByteSize_empty, String.empty_append] at hpre
    rw [← heq] at hpost
    rw [spliceBytes?, hpre, hmid, hpost]
    rfl

/-! ## What substitution does -/

lemma substitute_eq_of_verdict {answer : Voice → Except LinkError String}
    (hverdict : config.Verdict template answer) :
    config.substitute template texts = answer texts := by
  rw [substitute_eq_substituteBy, (substitutes_characters template).eq_of_verdict hverdict]
  cases answer texts <;> rfl

/-- No slice fails where bytes are counted, and the script is the same. -/
lemma substituteBytes_eq (config : Config) (template : String) (texts : Voice) :
    config.substituteBytes template texts = (config.substitute template texts).map some := by
  rcases config.exists_verdict template with ⟨answer, hverdict⟩
  rw [substituteBytes, (substitutes_bytes template).eq_of_verdict hverdict,
    substitute_eq_of_verdict hverdict]

/-- Substitution succeeds where the markers are found apart from each other. -/
lemma exists_substitute_iff :
    (∃ script, config.substitute template texts = .ok script) ↔
      ∃ values code, FirstAt template config.valuesMarker values ∧
        FirstAt template config.codeMarker code ∧
        ∀ place, ¬ Shared values config.valuesMarker code config.codeMarker place := by
  rcases config.exists_verdict template with ⟨answer, hverdict⟩
  rw [substitute_eq_of_verdict hverdict]
  constructor
  · rintro ⟨script, hscript⟩
    cases hverdict with
    | noValues missing => cases hscript
    | noCode found missing => cases hscript
    | overlap valuesAt codeAt shared => cases hscript
    | valuesFirst parts =>
        exact ⟨_, _, parts.firstAt, parts.secondAt, not_shared_behind _ _ _ _⟩
    | codeFirst parts =>
        refine ⟨_, _, parts.secondAt, parts.firstAt, fun place hshared => ?_⟩
        exact not_shared_behind _ _ _ _ place hshared.symm
  · rintro ⟨values, code, hvalues, hcode, hapart⟩
    cases hverdict with
    | noValues missing => exact absurd missing hvalues.not_missing
    | noCode found missing => exact absurd missing hcode.not_missing
    | overlap valuesAt codeAt shared =>
        rw [valuesAt.unique hvalues, codeAt.unique hcode] at shared
        exact absurd shared (hapart _)
    | valuesFirst parts => exact ⟨_, rfl⟩
    | codeFirst parts => exact ⟨_, rfl⟩

/-- Where substitution succeeds, the parts of the template around the markers are kept, whatever
the texts are. -/
lemma exists_parts_of_substitute {script : String}
    (h : config.substitute template texts = .ok script) :
    ∃ pre mid post,
      (Parts template config.valuesMarker config.codeMarker pre mid post ∧
        ∀ other : Voice, config.substitute template other =
          .ok (pre ++ other.values ++ mid ++ other.code ++ post)) ∨
      (Parts template config.codeMarker config.valuesMarker pre mid post ∧
        ∀ other : Voice, config.substitute template other =
          .ok (pre ++ other.code ++ mid ++ other.values ++ post)) := by
  rcases config.exists_verdict template with ⟨answer, hverdict⟩
  simp only [substitute_eq_of_verdict hverdict] at h ⊢
  cases hverdict with
  | noValues missing => cases h
  | noCode found missing => cases h
  | overlap valuesAt codeAt shared => cases h
  | valuesFirst parts => exact ⟨_, _, _, Or.inl ⟨parts, fun _ => rfl⟩⟩
  | codeFirst parts => exact ⟨_, _, _, Or.inr ⟨parts, fun _ => rfl⟩⟩

/-- The errors of substitution: the marker of the values is looked at first. -/
lemma substitute_eq_error_iff {e : LinkError} :
    config.substitute template texts = .error e ↔
      (Missing template config.valuesMarker ∧ e = .missingMarker config.valuesMarker) ∨
      (¬ Missing template config.valuesMarker ∧ Missing template config.codeMarker ∧
        e = .missingMarker config.codeMarker) ∨
      ∃ values code, FirstAt template config.valuesMarker values ∧
        FirstAt template config.codeMarker code ∧
        (∃ place, Shared values config.valuesMarker code config.codeMarker place) ∧
        e = .markerOverlap config.valuesMarker config.codeMarker := by
  constructor
  · intro h
    rcases config.exists_verdict template with ⟨answer, hverdict⟩
    rw [substitute_eq_of_verdict hverdict] at h
    cases hverdict with
    | noValues missing =>
        cases h
        exact Or.inl ⟨missing, rfl⟩
    | noCode found missing =>
        cases h
        exact Or.inr (Or.inl ⟨found, missing, rfl⟩)
    | overlap valuesAt codeAt shared =>
        cases h
        exact Or.inr (Or.inr ⟨_, _, valuesAt, codeAt, ⟨_, shared⟩, rfl⟩)
    | valuesFirst parts => cases h
    | codeFirst parts => cases h
  · rintro (⟨missing, rfl⟩ | ⟨found, missing, rfl⟩ | ⟨_, _, hvalues, hcode, ⟨_, hshared⟩, rfl⟩)
    · exact substitute_eq_of_verdict (.noValues missing)
    · exact substitute_eq_of_verdict (.noCode found missing)
    · exact substitute_eq_of_verdict (.overlap hvalues hcode hshared)

/-- **Substitution, exactly.**  It succeeds if and only if both markers are not empty, both occur in
the template, and their first occurrences share no character.  Then the template is cut at these
occurrences, and the script has the texts in the places of the markers and everything else of the
template around them, whatever the texts are.  Otherwise the error says which marker is empty or
absent, the one for the values first, or that the two overlap.  Substitution that counts bytes leads
to the same and none of its slices fails. -/
theorem substitute_exact (config : Config) (template : String) (texts : Voice) :
    ((∃ script, config.substitute template texts = .ok script) ↔
      ∃ values code, FirstAt template config.valuesMarker values ∧
        FirstAt template config.codeMarker code ∧
        ∀ place, ¬ Shared values config.valuesMarker code config.codeMarker place) ∧
    ((∃ script, config.substitute template texts = .ok script) → ∃ pre mid post,
      (Parts template config.valuesMarker config.codeMarker pre mid post ∧
        ∀ other : Voice, config.substitute template other =
          .ok (pre ++ other.values ++ mid ++ other.code ++ post)) ∨
      (Parts template config.codeMarker config.valuesMarker pre mid post ∧
        ∀ other : Voice, config.substitute template other =
          .ok (pre ++ other.code ++ mid ++ other.values ++ post))) ∧
    (∀ e, config.substitute template texts = .error e ↔
      (Missing template config.valuesMarker ∧ e = .missingMarker config.valuesMarker) ∨
      (¬ Missing template config.valuesMarker ∧ Missing template config.codeMarker ∧
        e = .missingMarker config.codeMarker) ∨
      ∃ values code, FirstAt template config.valuesMarker values ∧
        FirstAt template config.codeMarker code ∧
        (∃ place, Shared values config.valuesMarker code config.codeMarker place) ∧
        e = .markerOverlap config.valuesMarker config.codeMarker) ∧
    config.substituteBytes template texts = (config.substitute template texts).map some := by
  refine ⟨exists_substitute_iff, ?_, fun _ => substitute_eq_error_iff,
    substituteBytes_eq config template texts⟩
  rintro ⟨script, hscript⟩
  exact exists_parts_of_substitute hscript

/-- The markers touch, stand in the other order, and are not looked for in the texts. -/
example : ({ valuesMarker := "é", codeMarker := "ß→" } : Config).substitute "aß→éb→é"
    ⟨"ß→é", "é"⟩ = .ok "aéß→éb→é" := by
  rfl

/-- One marker stands inside the other. -/
example : ({ valuesMarker := "→", codeMarker := "ß→é" } : Config).substitute "aß→é" ⟨"", ""⟩ =
    .error (.markerOverlap "→" "ß→é") := by
  rfl

end Config

end Patchbay
