import Patchbay.Linker.Config
import Patchbay.Proofs.Quoting
import Mathlib.Data.List.Nodup
import Mathlib.Data.List.TakeDrop

/-!
# Configurations written line by line

A configuration is written down with one line for every name that is not to keep its default: a key,
the sign of equality and a text in double quotes.  This file follows such a document through the
reader, from its characters to the fields of the configuration.

* `Toml.IsDocument` — **the documents**: bare keys, texts written in any of their ways, and either
  kind of line end.
* `Toml.lines?_of_line` — the reader takes one line at a time.
* `Toml.parse?_of_isDocument` — the fields of a document, in its order.
* `Config.documents_exact` — **the configuration of a document is what it says, in any order of its
  lines, and a line with any other key spoils it.**
-/

namespace Patchbay

namespace Toml

/-! ## Documents -/

/-- A character that may stand in a key without quotes. -/
def BareChar (c : Char) : Prop :=
  ('a' ≤ c ∧ c ≤ 'z') ∨ ('A' ≤ c ∧ c ≤ 'Z') ∨ ('0' ≤ c ∧ c ≤ '9') ∨ c = '-' ∨ c = '_'

instance (c : Char) : Decidable (BareChar c) := inferInstanceAs (Decidable (_ ∨ _))

/-- A key that needs no quotes. -/
def BareKey (key : String) : Prop := key ≠ "" ∧ ∀ c ∈ key.toList, BareChar c

-- the characters of the key are gone through, and not all characters that there are
instance (key : String) : Decidable (BareKey key) :=
  @instDecidableAnd _ _ _ (List.decidableBAll BareChar key.toList)

/-- The line that gives a key its value. -/
def line (key : String) (written : List Char) : List Char :=
  key.toList ++ ' ' :: '=' :: ' ' :: written

inductive LineEnd : List Char → Prop where
  | feed : LineEnd ['\n']
  | returnFeed : LineEnd ['\r', '\n']

/-- **A document with one line for every key**, with the texts that its lines give to them.  The
last line need not be ended. -/
inductive IsDocument : List Char → List (String × String) → Prop where
  | empty : IsDocument [] []
  | last {key text : String} {written : List Char} (hkey : BareKey key)
      (hwritten : Quotes written text) : IsDocument (line key written) [(key, text)]
  | cons {key text : String} {written ending rest : List Char} {entries : List (String × String)}
      (hkey : BareKey key) (hwritten : Quotes written text) (hend : LineEnd ending)
      (hrest : IsDocument rest entries) :
      IsDocument (line key written ++ ending ++ rest) ((key, text) :: entries)

/-- The document of given keys and texts. -/
def document (entries : List (String × String)) : String :=
  String.ofList (entries.flatMap fun e => line e.1 (quoted e.2) ++ ['\n'])

/-- Whatever texts bare keys are to get, there is a document that says so. -/
lemma isDocument_document {entries : List (String × String)} (h : ∀ e ∈ entries, BareKey e.1) :
    IsDocument (document entries).toList entries := by
  rw [document, String.toList_ofList]
  induction entries with
  | nil => exact .empty
  | cons e entries ih =>
      rw [List.forall_mem_cons] at h
      exact .cons h.1 (quotes_quoted e.2) .feed (ih h.2)

/-! ## Keys -/

lemma isBare_of_bareChar {c : Char} (h : BareChar c) : isBare c = true := by
  have hbare : isBare c =
      (((c.isUpper || c.isLower) || c.isDigit) || decide (c = '-') || decide (c = '_')) := rfl
  rw [hbare]
  rcases h with h | h | h | rfl | rfl
  · have hlower : c.isLower = true :=
      Bool.and_eq_true_iff.mpr ⟨decide_eq_true h.1, decide_eq_true h.2⟩
    simp [hlower]
  · have hupper : c.isUpper = true := decide_eq_true h
    simp [hupper]
  · have hdigit : c.isDigit = true :=
      Bool.and_eq_true_iff.mpr ⟨decide_eq_true h.1, decide_eq_true h.2⟩
    simp [hdigit]
  · rfl
  · rfl

/-- A character of a key is none of the signs that the reader looks for. -/
lemma ne_sign_of_isBare {c : Char} (h : isBare c = true) :
    isBlank c = false ∧ c ≠ '"' ∧ c ≠ apostrophe ∧ c ≠ '[' ∧ c ≠ '#' ∧ c ≠ '\n' ∧ c ≠ '\r' ∧
      c ≠ '\uFEFF' := by
  have hne : ∀ d, isBare d = false → c ≠ d := by
    rintro d hd rfl
    rw [h] at hd
    cases hd
  refine ⟨?_, hne _ rfl, hne _ rfl, hne _ rfl, hne _ rfl, hne _ rfl, hne _ rfl, hne _ rfl⟩
  simp [isBlank, hne ' ' rfl, hne '\t' rfl]

lemma BareKey.exists_cons {key : String} (h : BareKey key) :
    ∃ c cs, key.toList = c :: cs ∧ isBare c = true ∧ ∀ d ∈ cs, isBare d = true := by
  obtain ⟨hne, hbare⟩ := h
  cases hchars : key.toList with
  | nil => exact absurd (String.toList_eq_nil_iff.mp hchars) hne
  | cons c cs =>
      rw [hchars, List.forall_mem_cons] at hbare
      exact ⟨c, cs, rfl, isBare_of_bareChar hbare.1, fun d hd => isBare_of_bareChar (hbare.2 d hd)⟩

lemma keyPart?_of_bareKey {key : String} (h : BareKey key) (s : List Char) :
    keyPart? (key.toList ++ ' ' :: s) = some (key, ' ' :: s) := by
  obtain ⟨c, cs, hchars, hc, hcs⟩ := h.exists_cons
  obtain ⟨-, hquote, happos, -⟩ := ne_sign_of_isBare hc
  have hspan : (cs ++ ' ' :: s).span isBare = (cs, ' ' :: s) := by
    rw [List.span_eq_takeWhile_dropWhile, List.takeWhile_append_of_pos hcs,
      List.dropWhile_append_of_pos hcs]
    simp [isBare]
  rw [hchars, List.cons_append, keyPart?]
  · simp only [happos, if_false, hc, if_true, hspan, ← hchars, String.ofList_toList]
  · simpa using hquote

lemma key?_of_bareKey {key : String} (h : BareKey key) (s : List Char) :
    key? (key.toList ++ ' ' :: '=' :: s) = some (([], key), '=' :: s) := by
  obtain ⟨c, cs, hchars, hc, -⟩ := h.exists_cons
  have hskip : skipBlanks (key.toList ++ ' ' :: '=' :: s) = key.toList ++ ' ' :: '=' :: s := by
    simp [hchars, skipBlanks, (ne_sign_of_isBare hc).1]
  have hparts : ∀ fuel, keyParts? (fuel + 1) (key.toList ++ ' ' :: '=' :: s) =
      some ([key], '=' :: s) := by
    intro fuel
    rw [keyParts?, hskip, keyPart?_of_bareKey h]
    rfl
  rw [key?, hparts]
  rfl

/-! ## Lines -/

lemma value?_of_quotes {written rest : List Char} {text : String} (h : Quotes written text)
    (hrest : rest.head? ≠ some '"') (depth : Nat) :
    value? depth (written ++ rest) = some (.string text, rest) := by
  have hread := string?_of_quotes h hrest
  obtain ⟨pieces, -, rfl⟩ := h
  simp only [List.cons_append] at hread ⊢
  rw [value?, if_pos (Or.inl rfl), hread, Option.map_some] <;> simp

/-- A key is read with its value, whatever follows the line. -/
lemma pair?_of_line {key text : String} {written rest : List Char} (hkey : BareKey key)
    (hwritten : Quotes written text) (hrest : rest.head? ≠ some '"') (depth : Nat) :
    pair? (value? depth) (line key written ++ rest) = some ((([], key), .string text), rest) := by
  have hvalue := value?_of_quotes hwritten hrest depth
  have hskip : skipBlanks (' ' :: written ++ rest) = written ++ rest := by
    obtain ⟨pieces, -, rfl⟩ := hwritten
    simp [skipBlanks, isBlank]
  rw [pair?, line, List.append_assoc]
  simp only [List.cons_append] at hskip ⊢
  rw [key?_of_bareKey hkey]
  simp [hskip, hvalue]

/-- What follows a line that ends here. -/
lemma restOfLine?_of_lineEnd {ending : List Char} (h : LineEnd ending) (rest : List Char) :
    restOfLine? (ending ++ rest) = some rest := by
  cases h <;> simp [restOfLine?, skipBlanks, isBlank, lineEnd?]

/-- A new key is put behind the fields that the current table has. -/
lemma assign_of_lookup {b : Builder} {key : String} (hnew : b.current.lookup key = none)
    (value : Value) :
    b.assign [] key value = some { b with current := b.current ++ [(key, value)] } := by
  simp [Builder.assign, Toml.assign, descend, hnew]

/-- **The reader takes one line at a time.** -/
lemma lines?_of_line {b : Builder} {key text : String} {written rest rest' : List Char}
    (hkey : BareKey key) (hwritten : Quotes written text) (hrest : rest.head? ≠ some '"')
    (hend : restOfLine? rest = some rest') (hnew : b.current.lookup key = none) (fuel : Nat) :
    lines? (fuel + 1) b (line key written ++ rest) =
      lines? fuel { b with current := b.current ++ [(key, .string text)] } rest' := by
  have hassign : assignment? b (line key written ++ rest) =
      some ({ b with current := b.current ++ [(key, .string text)] }, rest') := by
    rw [assignment?, pair?_of_line hkey hwritten hrest]
    simp [assign_of_lookup hnew, hend]
  obtain ⟨c, cs, hchars, hc, -⟩ := hkey.exists_cons
  obtain ⟨hblank, -, -, hbracket, hcomment, hfeed, hreturn, -⟩ := ne_sign_of_isBare hc
  obtain ⟨tail, htail⟩ : ∃ tail, line key written ++ rest = c :: tail := by simp [line, hchars]
  have hskip : skipBlanks (c :: tail) = c :: tail := by simp [skipBlanks, hblank]
  rw [htail] at hassign ⊢
  rw [lines?, hskip]
  split
  · rename_i heq
    cases heq
  · rename_i heq
    exact absurd (List.cons.inj heq).1 hbracket
  · rename_i heq
    cases heq
    rw [if_neg (by simp [hcomment, hfeed, hreturn]), hassign]
    rfl

lemma IsDocument.skipMark_eq {s : List Char} {entries : List (String × String)}
    (h : IsDocument s entries) : skipMark s = s := by
  have hline : ∀ {key : String} {written rest : List Char}, BareKey key →
      skipMark (line key written ++ rest) = line key written ++ rest := by
    intro key written rest hkey
    obtain ⟨c, cs, hchars, hc, -⟩ := hkey.exists_cons
    obtain ⟨-, -, -, -, -, -, -, hmark⟩ := ne_sign_of_isBare hc
    rw [line, hchars, List.cons_append, List.cons_append, skipMark]
    rintro _ heq
    exact hmark (List.cons.inj heq).1
  cases h with
  | empty => rfl
  | last hkey _ =>
      rw [← List.append_nil (line _ _)]
      exact hline hkey
  | cons hkey _ _ _ =>
      rw [List.append_assoc]
      exact hline hkey

/-- A key that comes after others of which none is the same is new. -/
lemma lookup_eq_none_of_nodup {fields : Fields} {key : String} {keys : List String}
    (h : (fields.map Prod.fst ++ key :: keys).Nodup) : fields.lookup key = none := by
  rw [List.lookup_eq_none_iff]
  intro field hfield
  have hne := (List.nodup_append.mp h).2.2 field.1 (List.mem_map_of_mem hfield) key (by simp)
  simpa using Ne.symm hne

/-- The lines of a document are read one after the other, if no key comes twice. -/
lemma lines?_of_isDocument {s : List Char} {entries : List (String × String)}
    (h : IsDocument s entries) : ∀ {b : Builder} {fuel : Nat}, s.length < fuel →
      (b.current.map Prod.fst ++ entries.map Prod.fst).Nodup →
      lines? fuel b s = some
        { b with current := b.current ++ entries.map fun e => (e.1, .string e.2) } := by
  induction h with
  | empty =>
      intro b fuel hfuel _
      obtain ⟨fuel, rfl⟩ := Nat.exists_eq_succ_of_ne_zero (Nat.ne_of_gt hfuel)
      simp [lines?, skipBlanks]
  | @last key text written hkey hwritten =>
      intro b fuel hfuel hkeys
      obtain ⟨fuel, rfl⟩ : ∃ k, fuel = k + 2 := ⟨fuel - 2, by simp [line] at hfuel; omega⟩
      rw [← List.append_nil (line key written),
        lines?_of_line hkey hwritten (by simp) rfl (lookup_eq_none_of_nodup hkeys)]
      simp [lines?, skipBlanks]
  | @cons key text written ending rest entries hkey hwritten hend _ ih =>
      intro b fuel hfuel hkeys
      obtain ⟨fuel, rfl⟩ := Nat.exists_eq_succ_of_ne_zero (Nat.ne_zero_of_lt hfuel)
      have hquote : (ending ++ rest).head? ≠ some '"' := by cases hend <;> simp
      have hlength : rest.length < fuel := by
        simp only [line, List.length_append, List.length_cons] at hfuel
        omega
      rw [List.append_assoc, lines?_of_line hkey hwritten hquote (restOfLine?_of_lineEnd hend rest)
        (lookup_eq_none_of_nodup hkeys), ih hlength (by simpa using hkeys)]
      simp

/-- **The fields of a document** are what its lines say, in their order. -/
theorem parse?_of_isDocument {text : String} {entries : List (String × String)}
    (h : IsDocument text.toList entries) (hkeys : (entries.map Prod.fst).Nodup) :
    parse? text = some (entries.map fun e => (e.1, .string e.2)) := by
  rw [parse?]
  simp only [h.skipMark_eq]
  rw [lines?_of_isDocument h (Nat.lt_succ_self _) (by simpa [Builder.empty] using hkeys)]
  simp [Builder.empty, Builder.close]

end Toml

namespace Config

open Toml

/-! ## The configuration of a document -/

lemma bareKey_key (field : Field) : BareKey field.key := by
  cases field <;> decide

/-- The configuration with given names in given fields. -/
def setAll (c : Config) (chosen : List (Field × String)) : Config :=
  chosen.foldl (fun c e => c.set e.1 e.2) c

lemma get_setAll_of_not_mem {field : Field} {chosen : List (Field × String)}
    (h : field ∉ chosen.map Prod.fst) (c : Config) : (c.setAll chosen).get field = c.get field := by
  induction chosen generalizing c with
  | nil => rfl
  | cons e chosen ih =>
      rw [List.map_cons, List.mem_cons, not_or] at h
      rw [setAll, List.foldl_cons, ← setAll, ih h.2, get_set, if_neg (Ne.symm h.1)]

lemma get_setAll_of_mem {e : Field × String} {chosen : List (Field × String)}
    (hfields : (chosen.map Prod.fst).Nodup) (he : e ∈ chosen) (c : Config) :
    (c.setAll chosen).get e.1 = e.2 := by
  induction chosen generalizing c with
  | nil => simp at he
  | cons first chosen ih =>
      rw [List.map_cons, List.nodup_cons] at hfields
      rw [setAll, List.foldl_cons, ← setAll]
      rcases List.mem_cons.mp he with rfl | he
      · rw [get_setAll_of_not_mem hfields.1, get_set, if_pos rfl]
      · exact ih hfields.2 he _

/-- The keys of chosen fields, with the names that these are to have. -/
def assigned (chosen : List (Field × String)) : List (String × String) :=
  chosen.map fun e => (e.1.key, e.2)

lemma key_injective : Function.Injective Field.key := by
  intro field other h
  have hfound := Field.ofKey?_key field
  rw [h, Field.ofKey?_key] at hfound
  exact (Option.some.inj hfound).symm

lemma nodup_assigned {chosen : List (Field × String)} (h : (chosen.map Prod.fst).Nodup) :
    ((assigned chosen).map Prod.fst).Nodup := by
  have hkeys : (assigned chosen).map Prod.fst = (chosen.map Prod.fst).map Field.key := by
    simp [assigned]
  rw [hkeys]
  exact List.Nodup.map key_injective h

lemma exists_key_eq {chosen : List (Field × String)} {e : String × String}
    (he : e ∈ assigned chosen) : ∃ field : Field, e.1 = field.key := by
  obtain ⟨f, -, rfl⟩ := List.mem_map.mp he
  exact ⟨f.1, rfl⟩

lemma bareKey_of_mem_assigned {chosen : List (Field × String)} {e : String × String}
    (he : e ∈ assigned chosen) : BareKey e.1 := by
  obtain ⟨field, hfield⟩ := exists_key_eq he
  rw [hfield]
  exact bareKey_key field

/-- One more key that is that of no field is one more key. -/
lemma nodup_insert {before after : List (Field × String)} {key name : String}
    (hfields : ((before ++ after).map Prod.fst).Nodup)
    (hunknown : ∀ field : Field, key ≠ field.key) :
    ((assigned before ++ (key, name) :: assigned after).map Prod.fst).Nodup := by
  rw [List.map_append, List.map_cons, List.nodup_middle, List.nodup_cons, ← List.map_append,
    assigned, assigned, ← List.map_append]
  refine ⟨fun hmem => ?_, nodup_assigned hfields⟩
  obtain ⟨e, he, rfl⟩ := List.mem_map.mp hmem
  obtain ⟨field, hfield⟩ := exists_key_eq he
  exact hunknown field hfield

/-- Keys of fields are taken in one after the other. -/
lemma foldlM_takeField (chosen : List (Field × String)) (c : Config) :
    ((assigned chosen).map fun e => (e.1, Value.string e.2)).foldlM takeField c =
      .ok (c.setAll chosen) := by
  induction chosen generalizing c with
  | nil => rfl
  | cons e chosen ih =>
      have htake : c.takeField (e.1.key, .string e.2) = .ok (c.set e.1 e.2) := by
        simp [takeField, Field.ofKey?_key]
      rw [assigned, List.map_cons, List.map_cons, List.foldlM_cons, htake]
      exact ih _

lemma takeField_of_unknown {key : String} (h : ∀ field : Field, key ≠ field.key) (c : Config)
    (value : Value) : c.takeField (key, value) = .error (.unknownField key) := by
  have hnone : Field.ofKey? key = none := by
    simpa [Field.ofKey?, List.find?_eq_none] using fun field _ => Ne.symm (h field)
  simp [takeField, hnone]

/-- **Configurations as documents.**  For every choice of fields, in any order and with any names,
there are documents with one line for each of them.  All of these are read as the configuration with
these names, in which the other fields keep their defaults.  With one more line at any place, whose
key is bare and that of no field, the document is refused because of that key. -/
theorem documents_exact {chosen : List (Field × String)} (hfields : (chosen.map Prod.fst).Nodup) :
    (∃ text : String, IsDocument text.toList (assigned chosen)) ∧
    (∀ text : String, IsDocument text.toList (assigned chosen) →
      ∃ c, ofToml text = .ok c ∧ (∀ e ∈ chosen, c.get e.1 = e.2) ∧
        ∀ field ∉ chosen.map Prod.fst, c.get field = ({} : Config).get field) ∧
    (∀ before after key name, chosen = before ++ after → BareKey key →
      (∀ field : Field, key ≠ field.key) →
      (∃ text : String, IsDocument text.toList (assigned before ++ (key, name) :: assigned after)) ∧
      ∀ text : String, IsDocument text.toList (assigned before ++ (key, name) :: assigned after) →
        ofToml text = .error (.misfit (.unknownField key))) := by
  refine ⟨⟨_, isDocument_document fun e => bareKey_of_mem_assigned⟩, fun text htext => ?_, ?_⟩
  · refine ⟨({} : Config).setAll chosen, ?_, fun e he => get_setAll_of_mem hfields he _,
      fun field hfield => get_setAll_of_not_mem hfield _⟩
    simp only [ofToml, parse?_of_isDocument htext (nodup_assigned hfields), foldlM_takeField]
  · rintro before after key name rfl hkey hunknown
    refine ⟨⟨_, isDocument_document fun e he => ?_⟩, fun text htext => ?_⟩
    · rcases List.mem_append.mp he with he | he
      · exact bareKey_of_mem_assigned he
      · rcases List.mem_cons.mp he with rfl | he
        · exact hkey
        · exact bareKey_of_mem_assigned he
    · -- the lines before the new one are taken in, and those behind it are not looked at
      have hfold : ((assigned before ++ (key, name) :: assigned after).map
          fun e => (e.1, Value.string e.2)).foldlM takeField {} = .error (.unknownField key) := by
        rw [List.map_append, List.map_cons, List.foldlM_append, foldlM_takeField]
        show List.foldlM takeField (({} : Config).setAll before) (_ :: _) = _
        rw [List.foldlM_cons, takeField_of_unknown hunknown]
        rfl
      simp only [ofToml, parse?_of_isDocument htext (nodup_insert hfields hunknown), hfold]

/-! ## A document with escapes -/

/-- The name of the right channel is a quote, a backslash and a tabulator, each of them escaped in
another way, and the state gets an empty name in a line that is not ended. -/
def demoText : String := "mix_right = \"\\\"\\u005C\\t\"\r\nstate_name = \"\""

def demoNames : List (Field × String) := [(.mixRight, "\"\\\t"), (.stateName, "")]

lemma isDocument_demoText : IsDocument demoText.toList (assigned demoNames) := by
  have hcode : HexCode ['0', '0', '5', 'C'] 0x5C :=
    ⟨[0, 0, 5, 12], .cons (Or.inl rfl) (.cons (Or.inl rfl) (.cons (Or.inl rfl)
      (.cons (Or.inr rfl) .nil))), rfl⟩
  have hright : Quotes ['"', '\\', '"', '\\', 'u', '0', '0', '5', 'C', '\\', 't', '"'] "\"\\\t" :=
    ⟨[['\\', '"'], ['\\', 'u', '0', '0', '5', 'C'], ['\\', 't']],
      .cons (.letter (by decide)) (.cons (.code List.mem_cons_self rfl hcode)
        (.cons (.letter (by decide)) .nil)), rfl⟩
  have hstate : Quotes ['"', '"'] "" := ⟨[], .nil, rfl⟩
  exact .cons (bareKey_key .mixRight) hright .returnFeed (.last (bareKey_key .stateName) hstate)

/-- The document is read, but not with a further line between its two lines. -/
theorem documents_exact_demo :
    (∃ c, ofToml demoText = .ok c ∧ c.mixRight = "\"\\\t" ∧ c.stateName = "" ∧ c.mixLeft = "ll") ∧
    ∃ text, ofToml text = .error (.misfit (.unknownField "voices")) := by
  have hfields : (demoNames.map Prod.fst).Nodup := by decide
  obtain ⟨-, hread, hspoilt⟩ := documents_exact hfields
  obtain ⟨c, hc, hchosen, hothers⟩ := hread demoText isDocument_demoText
  obtain ⟨⟨text, htext⟩, hrefused⟩ := hspoilt [(.mixRight, "\"\\\t")] [(.stateName, "")]
    "voices" "4" rfl (by decide) (fun field => by cases field <;> decide)
  exact ⟨⟨c, hc, hchosen (.mixRight, _) (by simp [demoNames]),
    hchosen (.stateName, _) (by simp [demoNames]), hothers .mixLeft (by decide)⟩,
    text, hrefused text htext⟩

end Config

end Patchbay
