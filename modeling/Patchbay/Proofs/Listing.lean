import Patchbay.Proofs.InitialValues
import Patchbay.Linker.Link
import Mathlib.Data.List.Forall2

/-!
# Taking the values of all voices apart

The linker joins the array literals of all voices with commas, the same sign that stands between the
cells of one voice.  The host script sees one text, and nothing but the brackets tells it where a
voice ends.  This file reads such a text back.

* `Spells` — the texts that are lists of lists of entries.
* `readLists?` — a reader of such texts, which cuts at the closing brackets first and then at the
  commas.
* `readLists?_eq_some_iff` — **the reader accepts what is spelled, and nothing else**; so no text
  spells two different lists.
* `Config.values_read_back` — the values of all voices, taken apart again.
-/

namespace Patchbay

/-! ## Texts of lists -/

/-- A text that is a sequence of lists in brackets, with commas between the lists and between the
entries of each of them. -/
structure Spells (text : String) (lists : List (List String)) : Prop where
  text_eq : text = ",".intercalate (lists.map renderEntries)
  entry : ∀ list ∈ lists, ∀ entry ∈ list, IsEntry entry

/-- The entries between two brackets, none of which may be empty or hold a bracket. -/
def readEntries? (body : List Char) : Option (List String) :=
  if body = [] then some []
  else
    let entries := body.splitOn ','
    if ∀ entry ∈ entries, entry ≠ [] ∧ '[' ∉ entry then some (entries.map String.ofList) else none

/-- The lists of a text that has been cut at its closing brackets.  Before each bracket stand a
comma, an opening bracket and the entries, and behind the last one nothing. -/
def readPieces? : List (List Char) → Option (List (List String))
  | [[]] => some []
  | (',' :: '[' :: body) :: pieces => do
      let list ← readEntries? body
      let lists ← readPieces? pieces
      return list :: lists
  | _ => none

/-- **Reads lists of lists.**  With a comma in front of the text, every list has one. -/
def readLists? (text : String) : Option (List (List String)) :=
  if text = "" then some [] else readPieces? ((',' :: text.toList).splitOn ']')

/-! ## Entries -/

/-- The characters of the entries between two brackets. -/
def bodyChars (list : List String) : List Char := [','].intercalate (list.map String.toList)

lemma toList_renderEntries (list : List String) :
    (renderEntries list).toList = '[' :: bodyChars list ++ [']'] := by
  simp [renderEntries, bodyChars]

lemma isEntry_iff {text : String} : IsEntry text ↔
    text.toList ≠ [] ∧ ',' ∉ text.toList ∧ '[' ∉ text.toList ∧ ']' ∉ text.toList := by
  rw [IsEntry, ne_eq, ne_eq, String.toList_eq_nil_iff]
  refine and_congr_right fun _ => ?_
  constructor
  · intro h
    exact ⟨fun hc => (h _ hc).1 rfl, fun hc => (h _ hc).2.1 rfl, fun hc => (h _ hc).2.2 rfl⟩
  · rintro ⟨hcomma, hopen, hclose⟩ c hc
    refine ⟨?_, ?_, ?_⟩ <;> rintro rfl
    · exact hcomma hc
    · exact hopen hc
    · exact hclose hc

/-- The characters between two brackets are commas and those of the entries. -/
lemma mem_bodyChars {c : Char} {list : List String} (h : c ∈ bodyChars list) :
    c = ',' ∨ ∃ entry ∈ list, c ∈ entry.toList := by
  induction list with
  | nil => simp [bodyChars] at h
  | cons entry list ih =>
      by_cases hnil : list = []
      · simp [bodyChars, hnil] at h
        simp [h]
      · rw [bodyChars, List.map_cons, List.intercalate_cons_of_ne_nil (by simpa using hnil)] at h
        simp only [List.append_assoc, List.mem_append, List.mem_singleton] at h
        rcases h with h | rfl | h
        · exact Or.inr ⟨entry, by simp, h⟩
        · exact Or.inl rfl
        · rcases ih h with rfl | ⟨other, hother, hc⟩
          · exact Or.inl rfl
          · exact Or.inr ⟨other, List.mem_cons_of_mem _ hother, hc⟩

/-- Entries are read back from between their brackets. -/
lemma readEntries?_bodyChars {list : List String} (h : ∀ entry ∈ list, IsEntry entry) :
    readEntries? (bodyChars list) = some list := by
  simp only [isEntry_iff] at h
  by_cases hnil : list = []
  · simp [hnil, readEntries?, bodyChars]
  · have hsplit : (bodyChars list).splitOn ',' = list.map String.toList :=
      List.splitOn_intercalate ',' (by simpa using fun entry he => (h entry he).2.1) (by simpa)
    have hbody : bodyChars list ≠ [] := by
      intro hempty
      -- the empty text is one empty entry
      have hmem : [] ∈ list.map String.toList := by
        rw [← hsplit, hempty]
        simp
      obtain ⟨entry, he, heq⟩ := List.mem_map.mp hmem
      exact (h entry he).1 heq
    have hentries : ∀ entry ∈ list.map String.toList, entry ≠ [] ∧ '[' ∉ entry := by
      simpa using fun entry he => ⟨by simpa using (h entry he).1, (h entry he).2.2.1⟩
    simp only [readEntries?, hbody, if_false, hsplit, if_pos hentries]
    simp [Function.comp_def]

/-- A piece of a text that is cut has characters of the text, and not the one it is cut at. -/
lemma mem_of_mem_splitOn {sep c : Char} {text : List Char} :
    ∀ {piece}, piece ∈ text.splitOn sep → c ∈ piece → c ∈ text ∧ c ≠ sep := by
  induction text with
  | nil => simp
  | cons x text ih =>
      intro piece hpiece hc
      rw [List.splitOn_cons_eq_if_modifyHead] at hpiece
      split_ifs at hpiece with hx
      · rcases List.mem_cons.mp hpiece with rfl | hpiece
        · simp at hc
        · exact ⟨List.mem_cons_of_mem _ (ih hpiece hc).1, (ih hpiece hc).2⟩
      · obtain ⟨first, rest, hsplit⟩ := List.exists_cons_of_ne_nil (List.splitOn_ne_nil sep text)
        rw [hsplit] at ih hpiece
        rcases List.mem_cons.mp hpiece with rfl | hpiece
        · rcases List.mem_cons.mp hc with rfl | hc
          · simpa using hx
          · exact ⟨List.mem_cons_of_mem _ (ih (by simp) hc).1, (ih (by simp) hc).2⟩
        · have := ih (List.mem_cons_of_mem _ hpiece) hc
          exact ⟨List.mem_cons_of_mem _ this.1, this.2⟩

/-- What is read is what stands there. -/
lemma bodyChars_of_readEntries? {body : List Char} {list : List String}
    (h : readEntries? body = some list) (hbody : ']' ∉ body) :
    bodyChars list = body ∧ ∀ entry ∈ list, IsEntry entry := by
  simp only [readEntries?] at h
  split_ifs at h with hnil hentries
  · cases h
    simp [bodyChars, hnil]
  · cases h
    have hjoin : [','].intercalate (body.splitOn ',') = body := List.intercalate_splitOn ','
    constructor
    · simp [bodyChars, Function.comp_def, hjoin]
    · intro entry hentry
      obtain ⟨piece, hpiece, rfl⟩ := List.mem_map.mp hentry
      rw [isEntry_iff, String.toList_ofList]
      refine ⟨(hentries piece hpiece).1, fun hc => ?_, (hentries piece hpiece).2, fun hc => ?_⟩
      · exact (mem_of_mem_splitOn hpiece hc).2 rfl
      · exact hbody (mem_of_mem_splitOn hpiece hc).1

/-! ## Lists -/

/-- The characters of lists, each with a comma in front. -/
def listsChars (lists : List (List String)) : List Char :=
  lists.flatMap fun list => ',' :: '[' :: bodyChars list ++ [']']

lemma toList_intercalate_renderEntries {lists : List (List String)} (h : lists ≠ []) :
    ',' :: (",".intercalate (lists.map renderEntries)).toList = listsChars lists := by
  induction lists with
  | nil => exact absurd rfl h
  | cons list lists ih =>
      by_cases hnil : lists = []
      · simp [hnil, listsChars, toList_renderEntries]
      · rw [List.map_cons, String.intercalate_cons_of_ne_nil (by simpa using hnil),
          listsChars, List.flatMap_cons, ← listsChars, ← ih hnil]
        simp [toList_renderEntries]

/-- Lists are read back from what stands before their closing brackets. -/
lemma readPieces?_listsChars {lists : List (List String)}
    (h : ∀ list ∈ lists, ∀ entry ∈ list, IsEntry entry) :
    readPieces? ((listsChars lists).splitOn ']') = some lists := by
  induction lists with
  | nil => rfl
  | cons list lists ih =>
      rw [List.forall_mem_cons] at h
      have hbody : ']' ∉ ',' :: '[' :: bodyChars list := by
        simp only [List.mem_cons, Char.reduceEq, false_or]
        intro hc
        rcases mem_bodyChars hc with hcomma | ⟨entry, hentry, hc⟩
        · exact absurd hcomma (by decide)
        · exact (isEntry_iff.mp (h.1 entry hentry)).2.2.2 hc
      rw [listsChars, List.flatMap_cons, ← listsChars, List.append_assoc, List.singleton_append,
        List.splitOn_append_cons_self_of_not_mem hbody, readPieces?, readEntries?_bodyChars h.1,
        ih h.2]
      rfl

/-- What is read is what stands there. -/
lemma listsChars_of_readPieces? {pieces : List (List Char)}
    (hpieces : ∀ piece ∈ pieces, ']' ∉ piece) :
    ∀ {lists : List (List String)}, readPieces? pieces = some lists →
      listsChars lists = [']'].intercalate pieces ∧
        ∀ list ∈ lists, ∀ entry ∈ list, IsEntry entry := by
  fun_induction readPieces? pieces with
  | case1 =>
      rintro lists ⟨⟩
      simp [listsChars]
  | case2 body pieces ih =>
      intro lists h
      rw [List.forall_mem_cons] at hpieces
      simp only [Option.bind_eq_bind, Option.bind_eq_some_iff, Option.pure_def,
        Option.some.injEq] at h
      obtain ⟨list, hlist, rest, hrest, rfl⟩ := h
      obtain ⟨hbody, hentries⟩ := bodyChars_of_readEntries? hlist fun hc => hpieces.1 (by simp [hc])
      obtain ⟨hchars, hothers⟩ := ih hpieces.2 hrest
      have hne : pieces ≠ [] := by
        rintro rfl
        simp [readPieces?] at hrest
      constructor
      · rw [listsChars, List.flatMap_cons, ← listsChars, hchars, hbody,
          List.intercalate_cons_of_ne_nil hne]
      · rw [List.forall_mem_cons]
        exact ⟨hentries, hothers⟩
  | case3 pieces =>
      rintro lists ⟨⟩

/-- **The reader accepts what is spelled, and nothing else.** -/
theorem readLists?_eq_some_iff {text : String} {lists : List (List String)} :
    readLists? text = some lists ↔ Spells text lists := by
  constructor
  · intro h
    rw [readLists?] at h
    split_ifs at h with hempty
    · cases h
      exact ⟨hempty, by simp⟩
    · obtain ⟨hchars, hentries⟩ := listsChars_of_readPieces?
        (fun piece hpiece hc => (mem_of_mem_splitOn hpiece hc).2 rfl) h
      refine ⟨?_, hentries⟩
      rw [List.intercalate_splitOn] at hchars
      have hne : lists ≠ [] := by
        rintro rfl
        simp [listsChars] at hchars
      rw [← toList_intercalate_renderEntries hne, List.cons.injEq] at hchars
      exact String.toList_inj.mp hchars.2.symm
  · rintro ⟨rfl, hentries⟩
    by_cases hnil : lists = []
    · simp [hnil, readLists?]
    · have hchars := toList_intercalate_renderEntries hnil
      have htext : ",".intercalate (lists.map renderEntries) ≠ "" := by
        intro hempty
        rw [hempty] at hchars
        obtain ⟨list, others, rfl⟩ := List.exists_cons_of_ne_nil hnil
        simp [listsChars] at hchars
      rw [readLists?, if_neg htext, hchars, readPieces?_listsChars hentries]

/-- No text spells two different lists. -/
lemma Spells.unique {text : String} {lists other : List (List String)} (h : Spells text lists)
    (hother : Spells text other) : other = lists := by
  have hread := readLists?_eq_some_iff.mpr h
  rw [readLists?_eq_some_iff.mpr hother] at hread
  exact Option.some.inj hread

/-! ## The values of all voices -/

namespace Graph

/-- The values of a patch spell the one list of what its cells start with. -/
lemma StartsWith.spells {g : Graph} {patch : Patch} {texts : List String}
    (h : g.StartsWith patch texts) : Spells patch.values [texts] where
  text_eq := by
    rw [h.values]
    rfl
  entry := by
    simpa using h.entry

/-- A patch alone settles what its cells start with, from whatever graph it is compiled. -/
lemma exists_startsWith {g : Graph} (hg : g.Reachable) {patch : Patch}
    (hpatch : g.compile = .ok patch) : ∃ texts, Spells patch.values [texts] ∧
      ∀ h : Graph, h.Reachable → h.compile = .ok patch → h.StartsWith patch texts := by
  have hstarts : ∀ h : Graph, h.Reachable → h.compile = .ok patch →
      ∃ texts, h.StartsWith patch texts := by
    intro h hh hcompile
    obtain ⟨modules, hmodules, rfl⟩ := compile_eq_ok_iff.mp hcompile
    have hwf := hh.wellFormed
    exact ⟨_, ((scheduled_spec hwf.id_eq).1 modules hmodules).startsWith_entries hwf⟩
  obtain ⟨texts, htexts⟩ := hstarts g hg hpatch
  refine ⟨texts, htexts.spells, fun h hh hcompile => ?_⟩
  obtain ⟨other, hother⟩ := hstarts h hh hcompile
  cases htexts.spells.unique hother.spells
  exact hother

/-- A generator that needs no cells. -/
def demoSilence : Definition :=
  { name := "Silence", inChannels := 0, outChannels := 2, code := "l=r=0;" }

def demoSilentStart : Graph :=
  ⟨"", Catalog.withSink.fillAll [.register demoSilence],
    #[some ((Module.instantiate .sink .sink).setName sinkDisplayName)]⟩

/-- The generator alone, connected to the sink. -/
def demoSilent : Graph := demoSilentStart.applyAll [.add "Silence", .connect ⟨1⟩ .sink]

lemma demoSilent_reachable : demoSilent.Reachable :=
  ⟨_, demoSilentStart, _, ⟨.withSink, [.register demoSilence], Or.inr rfl, rfl⟩, rfl, rfl⟩

end Graph

/-- The values of voices one after the other spell the lists of the voices one after the other. -/
lemma spells_intercalate {values : List String} {lists : List (List String)}
    (h : List.Forall₂ (fun text list => Spells text [list]) values lists) :
    Spells (",".intercalate values) lists := by
  have hvalues : values = lists.map renderEntries := by
    induction h with
    | nil => rfl
    | cons hspells _ ih => simpa [ih] using hspells.text_eq
  refine ⟨congrArg _ hvalues, ?_⟩
  induction h with
  | nil => simp
  | cons hspells _ ih =>
      rw [List.forall_mem_cons]
      exact ⟨by simpa using hspells.entry, ih (List.tail_eq_of_cons_eq hvalues)⟩

/-- The lists of the patches of graphs that can come about, one for each of them. -/
lemma exists_lists_of_compiled {patches : List Patch}
    (hpatches : ∀ patch ∈ patches, ∃ g : Graph, g.Reachable ∧ g.compile = .ok patch) :
    ∃ lists, List.Forall₂ (fun (patch : Patch) texts => Spells patch.values [texts] ∧
      ∀ g : Graph, g.Reachable → g.compile = .ok patch → g.StartsWith patch texts)
      patches lists := by
  induction patches with
  | nil => exact ⟨[], .nil⟩
  | cons patch patches ih =>
      rw [List.forall_mem_cons] at hpatches
      obtain ⟨⟨g, hg, hpatch⟩, hothers⟩ := hpatches
      obtain ⟨texts, htexts⟩ := Graph.exists_startsWith hg hpatch
      obtain ⟨lists, hlists⟩ := ih hothers
      exact ⟨texts :: lists, .cons htexts hlists⟩

namespace Config

/-- **The values of all voices, taken apart again.**  The values that are combined from patches are
lists of lists of entries in one way only.  There is one list for every patch, in their order, and
it is what the cells of the patch start with: as many texts as it has cells, at the cell of every
parameter what the parameter starts with, and zeros at the others. -/
theorem values_read_back (config : Config) {patches : List Patch}
    (hpatches : ∀ patch ∈ patches, ∃ g : Graph, g.Reachable ∧ g.compile = .ok patch) :
    ∃ lists : List (List String),
      readLists? (config.combine (patches.map Patch.voice)).values = some lists ∧
      (∀ other, Spells (config.combine (patches.map Patch.voice)).values other ↔ other = lists) ∧
      List.Forall₂ (fun patch texts => texts.length = patch.stateSize ∧
        patch.values = renderEntries texts ∧
        ∀ g : Graph, g.Reachable → g.compile = .ok patch → g.StartsWith patch texts)
        patches lists ∧
      (patches = [] → (config.combine (patches.map Patch.voice)).values = "") := by
  obtain ⟨lists, hlists⟩ := exists_lists_of_compiled hpatches
  have hspells : Spells (config.combine (patches.map Patch.voice)).values lists := by
    refine spells_intercalate ?_
    rw [List.map_map, List.forall₂_map_left_iff]
    exact hlists.imp fun _ _ h => h.1
  refine ⟨lists, readLists?_eq_some_iff.mpr hspells, ?_, ?_, ?_⟩
  · exact fun other => ⟨fun h => hspells.unique h, fun h => h ▸ hspells⟩
  · refine List.Forall₂.imp ?_ ((List.forall₂_and_left _ _).mpr ⟨hpatches, hlists⟩)
    rintro patch texts ⟨⟨g, hg, hpatch⟩, -, hstarts⟩
    exact ⟨(hstarts g hg hpatch).length, (hstarts g hg hpatch).values, hstarts⟩
  · rintro rfl
    rfl

/-- A voice without cells between two that have eight each. -/
theorem values_read_back_demo :
    ∃ tuned silent lists,
      Graph.demoTuned.compile = .ok tuned ∧ Graph.demoSilent.compile = .ok silent ∧
      (({} : Config).combine ([tuned, silent, tuned].map Patch.voice)).values =
        "[.5,0,-0.25,0,0,0,0,0],[],[.5,0,-0.25,0,0,0,0,0]" ∧
      readLists? "[.5,0,-0.25,0,0,0,0,0],[],[.5,0,-0.25,0,0,0,0,0]" = some lists ∧
      lists.map List.length = [8, 0, 8] ∧
      ∀ other, Spells "[.5,0,-0.25,0,0,0,0,0],[],[.5,0,-0.25,0,0,0,0,0]" other →
        other = lists := by
  have htuned : Graph.demoTuned.compile.toOption.map (fun patch => (patch.stateSize,
      patch.values)) = some (8, "[.5,0,-0.25,0,0,0,0,0]") := by decide +kernel
  have hsilent : Graph.demoSilent.compile.toOption.map (fun patch => (patch.stateSize,
      patch.values)) = some (0, "[]") := by decide +kernel
  obtain ⟨tuned, htuned, heq⟩ := exists_ok_of_map htuned
  obtain ⟨silent, hsilent, heq'⟩ := exists_ok_of_map hsilent
  simp only [Prod.mk.injEq] at heq heq'
  have hpatches : ∀ patch ∈ [tuned, silent, tuned],
      ∃ g : Graph, g.Reachable ∧ g.compile = .ok patch := by
    have hreachable : Graph.demoTuned.Reachable := Graph.demo_reachable.applyAll _
    simp only [List.forall_mem_cons, List.not_mem_nil, false_implies, implies_true, and_true]
    exact ⟨⟨_, hreachable, htuned⟩, ⟨_, Graph.demoSilent_reachable, hsilent⟩,
      ⟨_, hreachable, htuned⟩⟩
  have hvalues : (({} : Config).combine ([tuned, silent, tuned].map Patch.voice)).values =
      "[.5,0,-0.25,0,0,0,0,0],[],[.5,0,-0.25,0,0,0,0,0]" := by
    simp only [combine, Patch.voice, List.map_cons, List.map_nil, heq.2, heq'.2]
    rfl
  obtain ⟨lists, hread, hunique, hlists, -⟩ := values_read_back {} hpatches
  rw [hvalues] at hread hunique
  refine ⟨tuned, silent, lists, htuned, hsilent, hvalues, hread, ?_, fun other h => ?_⟩
  · have hlengths : lists.map List.length = [tuned, silent, tuned].map Patch.stateSize := by
      rw [← List.forall₂_eq_eq_eq, List.forall₂_map_left_iff, List.forall₂_map_right_iff]
      exact hlists.flip.imp fun _ _ h => h.1
    rw [hlengths]
    simp [heq.1, heq'.1]
  · exact (hunique other).mp h

end Config

end Patchbay
