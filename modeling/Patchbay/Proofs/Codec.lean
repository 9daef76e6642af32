import Patchbay.Definition.Codec
import Patchbay.Proofs.Widening
import Mathlib.Data.List.Perm.Basic

/-!
# Definitions as JSON, there and back

A definition is written as an object and read from an object or a list.  The reader does not care
about the order of an object's fields or about fields that it does not know.  Defaults that are
missing are none, which is not the same as an empty list of them.

* `lookup_eq_of_perm`, `lookup_filter`, `lookup_zip` — fields found by name.
* `Definition.Fields.of` — the fields of a definition by a way of finding them.  Both forms come
  down to this, so that they are read alike if they hold the same under every name.
* `Definition.Carries` — an object with given fields, in any order and among unknown ones.
* `Definition.ReadsBack` — a way of writing numbers that the reader undoes on finite ones.
* `Definition.codec_exact` — **what is written is read back, in any arrangement, and the list form
  agrees with the object form.**
-/

namespace Patchbay

/-! ## Fields by name -/

section Lookup

variable {fields members : List (String × Json)} {names : List String} {name : String} {v : Json}

/-- With every name once, what is found under a name is what is there. -/
lemma lookup_eq_some_iff_mem (hnodup : (fields.map Prod.fst).Nodup) :
    fields.lookup name = some v ↔ (name, v) ∈ fields := by
  rw [List.lookup_eq_some_iff]
  constructor
  · rintro ⟨before, after, rfl, -⟩
    simp
  · intro hmem
    obtain ⟨before, after, rfl⟩ := List.append_of_mem hmem
    refine ⟨before, after, rfl, fun p hp => ?_⟩
    rw [List.map_append, List.nodup_append] at hnodup
    have hne := hnodup.2.2 p.1 (List.mem_map_of_mem hp) name (by simp)
    simpa using Ne.symm hne

/-- The order of fields does not matter if every name is there once. -/
lemma lookup_eq_of_perm (hperm : fields.Perm members) (hnodup : (members.map Prod.fst).Nodup) :
    fields.lookup name = members.lookup name := by
  have hnodup' : (fields.map Prod.fst).Nodup := (hperm.map _).nodup_iff.mpr hnodup
  refine Option.ext fun v => ?_
  rw [lookup_eq_some_iff_mem hnodup, lookup_eq_some_iff_mem hnodup', hperm.mem_iff]

/-- Fields of other names do not matter. -/
lemma lookup_filter (hname : name ∈ names) :
    (fields.filter (·.1 ∈ names)).lookup name = fields.lookup name := by
  induction fields with
  | nil => rfl
  | cons field fields ih =>
      obtain ⟨key, value⟩ := field
      by_cases hkey : key ∈ names
      · simp only [List.filter_cons, hkey, decide_true, if_true, List.lookup_cons, ih]
      · have hne : (name == key) = false := by
          simpa using fun heq : name = key => hkey (heq ▸ hname)
        simp only [List.filter_cons, hkey, decide_false, Bool.false_eq_true, if_false,
          List.lookup_cons, hne, ih]

/-- Names paired with values: under a name stands the value at its place. -/
lemma lookup_zip : ∀ {names : List String} {values : List Json} {k : Nat}, names.Nodup →
    names[k]? = some name → (names.zip values).lookup name = values[k]?
  | [], _, _, _, h => by simp at h
  | first :: names, [], k, _, _ => by simp
  | first :: names, value :: values, 0, _, h => by
      cases h
      simp
  | first :: names, value :: values, k + 1, hnodup, h => by
      have hmem : name ∈ names := List.mem_of_getElem? h
      have hne : (name == first) = false := by
        simpa using fun heq : name = first => (List.nodup_cons.mp hnodup).1 (heq ▸ hmem)
      rw [List.zip_cons_cons, List.lookup_cons, hne]
      exact lookup_zip (List.nodup_cons.mp hnodup).2 h

end Lookup

/-! ## Values that are read back -/

namespace Json

/-- A whole number within the limit is read back. -/
lemma asNat?_ofNat {n limit : Nat} (h : n < limit) : (ofNat n).asNat? limit = some n := by
  have hrange : (0 : Int) ≤ n ∧ (n : Int) < limit := ⟨Int.natCast_nonneg n, Int.ofNat_lt.mpr h⟩
  rw [ofNat, asNat?, if_pos hrange, Int.toNat_natCast]

/-- A list is read back if its items are. -/
lemma asList?_map {α : Type} {write : α → Json} {read : Json → Option α} {xs : List α}
    (h : ∀ x ∈ xs, read (write x) = some x) : (array (xs.map write)).asList? read = some xs := by
  rw [asList?]
  induction xs with
  | nil => rfl
  | cons x xs ih =>
      rw [List.map_cons, List.mapM_cons, h x List.mem_cons_self,
        ih fun y hy => h y (List.mem_cons_of_mem x hy)]
      rfl

end Json

namespace Definition

variable {d : Definition} {write : Binary32 → Json} {fields members : List (String × Json)}

lemma channels?_ofNat (n : UInt8) : channels? (.ofNat n.toNat) = some n := by
  rw [channels?, Json.asNat?_ofNat n.toNat_lt, Option.map_some, UInt8.ofNat_toNat]

lemma size?_ofNat (n : UInt64) : size? (.ofNat n.toNat) = some n := by
  rw [size?, Json.asNat?_ofNat n.toNat_lt, Option.map_some, UInt64.ofNat_toNat]

/-- A way of writing numbers that is undone by reading, on finite numbers. -/
def ReadsBack (write : Binary32 → Json) : Prop :=
  ∀ x : Binary32, x.isFinite = true → (write x).asBinary32? = some x

/-- Numbers that are written out in full are read back. -/
lemma readsBack_ofBinary32 : ReadsBack Json.ofBinary32 := by
  intro x hx
  rw [Json.ofBinary32, if_pos hx, Json.asBinary32?, JsonNumber.toBinary32_ofBinary32 hx]

/-- All defaults are finite, if there are any. -/
def FiniteDefaults (d : Definition) : Prop := ∀ x ∈ d.paramDefaults.getD [], x.isFinite = true

instance : Decidable d.FiniteDefaults :=
  inferInstanceAs (Decidable (∀ x ∈ d.paramDefaults.getD [], x.isFinite = true))

lemma defaults?_map (hwrite : ReadsBack write) {defaults : List Binary32}
    (hfinite : ∀ x ∈ defaults, x.isFinite = true) :
    defaults? (.array (defaults.map write)) = some (some defaults) := by
  have hread : (Json.array (defaults.map write)).asList? Json.asBinary32? = some defaults :=
    Json.asList?_map fun x hx => hwrite x (hfinite x hx)
  rw [defaults?, hread, Option.map_some]
  exact nofun

/-- Finite defaults equal themselves as numbers. -/
lemma equalDefaults_self {defaults : List Binary32} (h : ∀ x ∈ defaults, x.isFinite = true) :
    equalDefaults defaults defaults = true := by
  induction defaults with
  | nil => rfl
  | cons x defaults ih =>
      have hx : x.isNaN = false :=
        Binary32.isNaN_eq_false_iff.mpr (of_decide_eq_true (h x List.mem_cons_self)).le
      have hrest := ih fun y hy => h y (List.mem_cons_of_mem x hy)
      simp [equalDefaults, Binary32.equals, hx, hrest]

lemma FiniteDefaults.equals_self (h : d.FiniteDefaults) : d.equals d = true := by
  cases hdefaults : d.paramDefaults with
  | none => simp [equals, hdefaults]
  | some defaults =>
      have hfinite : ∀ x ∈ defaults, x.isFinite = true := by
        simpa [FiniteDefaults, hdefaults] using h
      simp [equals, hdefaults, equalDefaults_self hfinite]

/-! ## Fields by the way of finding them -/

/-- The fields of a definition, each as it is found under its name. -/
def Fields.of (find : String → Option Json) : Fields where
  name := find "name"
  inChannels := find "inChannels"
  outChannels := find "outChannels"
  paramNames := find "paramNames"
  paramDefaults := find "paramDefaults"
  workspaceSize := find "workspaceSize"
  code := find "code"

lemma Fields.of_congr {find find' : String → Option Json}
    (h : ∀ name ∈ fieldNames, find name = find' name) : of find = of find' := by
  simp only [fieldNames, List.forall_mem_cons] at h
  obtain ⟨hname, hin, hout, hnames, hdefaults, hsize, hcode, -⟩ := h
  rw [of, of, hname, hin, hout, hnames, hdefaults, hsize, hcode]

lemma ofJson?_object : ofJson? (.object fields) = ofFields? (.of (fields.lookup ·)) := rfl

/-- Objects with the same under every name of a field are read alike. -/
lemma ofJson?_congr (h : ∀ name ∈ fieldNames, fields.lookup name = members.lookup name) :
    ofJson? (.object fields) = ofJson? (.object members) := by
  rw [ofJson?_object, ofJson?_object, Fields.of_congr h]

/-- The list form is the object form with the names left out. -/
lemma ofJson?_array {values : List Json} (h : values.length ≤ fieldNames.length) :
    ofJson? (.array values) = ofJson? (.object (fieldNames.zip values)) := by
  have hplace {name : String} {k : Nat} (hk : fieldNames[k]? = some name) :
      (fieldNames.zip values).lookup name = values[k]? :=
    lookup_zip (by decide) hk
  rw [ofJson?_object, Fields.of, hplace (k := 0) rfl, hplace (k := 1) rfl, hplace (k := 2) rfl,
    hplace (k := 3) rfl, hplace (k := 4) rfl, hplace (k := 5) rfl, hplace (k := 6) rfl]
  exact if_pos h

/-! ## Objects in any arrangement -/

/-- The given fields are all there, in any order and among any fields of other names. -/
def Carries (fields members : List (String × Json)) : Prop :=
  ∃ unknown : List (String × Json), (∀ field ∈ unknown, field.1 ∉ fieldNames) ∧
    fields.Perm (members ++ unknown)

lemma carries_self (members : List (String × Json)) : Carries members members :=
  ⟨[], nofun, by rw [List.append_nil]⟩

/-- Arrangement does not matter to the reader if every name is there once. -/
lemma Carries.ofJson?_eq (h : Carries fields members) (hnodup : (members.map Prod.fst).Nodup) :
    ofJson? (.object fields) = ofJson? (.object members) := by
  obtain ⟨unknown, hunknown, hperm⟩ := h
  -- What is left of both objects without the unknown fields
  have hknown : (fields.filter (·.1 ∈ fieldNames)).Perm (members.filter (·.1 ∈ fieldNames)) := by
    have hnone : unknown.filter (·.1 ∈ fieldNames) = [] := by
      simpa [List.filter_eq_nil_iff] using hunknown
    simpa only [List.filter_append, hnone, List.append_nil] using hperm.filter (·.1 ∈ fieldNames)
  have hnodup' : ((members.filter (·.1 ∈ fieldNames)).map Prod.fst).Nodup :=
    hnodup.sublist (List.filter_sublist.map _)
  refine ofJson?_congr fun name hname => ?_
  rw [← lookup_filter hname, lookup_eq_of_perm hknown hnodup', lookup_filter hname]

/-! ## There and back -/

/-- The fields of a definition as they are written. -/
def writtenFields (write : Binary32 → Json) (d : Definition) : Fields where
  name := some (.string d.name)
  inChannels := some (.ofNat d.inChannels.toNat)
  outChannels := some (.ofNat d.outChannels.toNat)
  paramNames := some (.array (d.paramNames.map .string))
  paramDefaults := d.paramDefaults.map fun defaults => .array (defaults.map write)
  workspaceSize := some (.ofNat d.workspaceSize.toNat)
  code := some (.string d.code)

/-- What is written is an object with every name once. -/
lemma exists_toJsonWith_eq (d : Definition) (write : Binary32 → Json) :
    ∃ members, d.toJsonWith write = .object members ∧ (members.map Prod.fst).Nodup ∧
      Fields.of (members.lookup ·) = d.writtenFields write := by
  refine ⟨_, rfl, ?_⟩
  rw [writtenFields]
  cases d.paramDefaults with
  | none => simp [Fields.of, List.lookup_cons]
  | some defaults => simp [Fields.of, List.lookup_cons]

/-- The written fields are read back. -/
lemma ofFields?_writtenFields (hwrite : ReadsBack write) (hfinite : d.FiniteDefaults) :
    ofFields? (d.writtenFields write) = some d := by
  have hdefaults : optional? none defaults? (d.writtenFields write).paramDefaults =
      some d.paramDefaults := by
    rw [FiniteDefaults] at hfinite
    rw [writtenFields]
    cases hd : d.paramDefaults with
    | none => rfl
    | some defaults =>
        rw [hd] at hfinite
        exact defaults?_map hwrite hfinite
  have hsize : optional? 0 size? (d.writtenFields write).workspaceSize = some d.workspaceSize := by
    rw [writtenFields, optional?, size?_ofNat]
  have hin : (d.writtenFields write).inChannels.bind channels? = some d.inChannels := by
    rw [writtenFields, Option.bind_some, channels?_ofNat]
  have hout : (d.writtenFields write).outChannels.bind channels? = some d.outChannels := by
    rw [writtenFields, Option.bind_some, channels?_ofNat]
  have hnames : optional? [] (Json.asList? Json.asString?) (d.writtenFields write).paramNames =
      some d.paramNames :=
    Json.asList?_map fun _ _ => rfl
  rw [ofFields?, hin, hout, hnames, hdefaults, hsize]
  rfl

/-- A definition with finite defaults is read back from the object it is written as, however this
is arranged. -/
lemma exists_ofJson?_eq (hwrite : ReadsBack write) (hfinite : d.FiniteDefaults) :
    ∃ members, d.toJsonWith write = .object members ∧
      ∀ fields, Carries fields members → ofJson? (.object fields) = some d := by
  obtain ⟨members, hmembers, hnodup, hfields⟩ := d.exists_toJsonWith_eq write
  refine ⟨members, hmembers, fun fields hcarries => ?_⟩
  rw [hcarries.ofJson?_eq hnodup, ofJson?_object, hfields, ofFields?_writtenFields hwrite hfinite]

/-- **Definitions as JSON, there and back.**  However finite numbers are written, as long as each of
them is read back, a definition with finite defaults is written as an object from which exactly this
definition is read, with its fields in any order and among any unknown ones.  Numbers that are
written out in full are read back.  A list of values is read as the object that has them under the
first names of fields, whether they fit or not. -/
theorem codec_exact :
    (∀ write, ReadsBack write → ∀ d : Definition, d.FiniteDefaults →
      d.equals d = true ∧ ofJson? (d.toJsonWith write) = some d ∧
      ∃ members, d.toJsonWith write = .object members ∧
        ∀ fields, Carries fields members → ofJson? (.object fields) = some d) ∧
    ReadsBack Json.ofBinary32 ∧
    ∀ values : List Json, values.length ≤ fieldNames.length →
      ofJson? (.array values) = ofJson? (.object (fieldNames.zip values)) := by
  refine ⟨fun write hwrite d hfinite => ⟨hfinite.equals_self, ?_⟩, readsBack_ofBinary32,
    fun values => ofJson?_array⟩
  obtain ⟨members, hmembers, hread⟩ := exists_ofJson?_eq hwrite hfinite
  refine ⟨?_, members, hmembers, hread⟩
  rw [hmembers, hread members (carries_self members)]

/-- A filter whose defaults are the negative zero and the least positive number. -/
def demoFilter : Definition where
  name := "Filter"
  inChannels := 2
  outChannels := 1
  paramNames := ["cut", "gain"]
  paramDefaults := some [⟨0x80000000⟩, ⟨1⟩]
  workspaceSize := 3
  code := "o=i;"

/-- The filter from an object in reverse order with an unknown field in front, and from a list.
Without defaults and with an empty list of them it is read back as what it is. -/
theorem codec_exact_demo :
    ofJson? (.object [("colour", .null), ("code", .string "o=i;"), ("workspaceSize", .ofNat 3),
      ("paramDefaults", .array [.ofBinary32 ⟨0x80000000⟩, .ofBinary32 ⟨1⟩]),
      ("paramNames", .array [.string "cut", .string "gain"]), ("outChannels", .ofNat 1),
      ("inChannels", .ofNat 2), ("name", .string "Filter")]) = some demoFilter ∧
    ofJson? (.array [.string "Filter", .ofNat 2, .ofNat 1, .array [.string "cut", .string "gain"],
      .array [.ofBinary32 ⟨0x80000000⟩, .ofBinary32 ⟨1⟩], .ofNat 3, .string "o=i;"]) =
      some demoFilter ∧
    ∀ defaults ∈ [none, some []],
      ofJson? { demoFilter with paramDefaults := defaults }.toJson =
        some { demoFilter with paramDefaults := defaults } := by
  obtain ⟨hback, hnumbers, hlist⟩ := codec_exact
  obtain ⟨-, hplain, members, hmembers, hread⟩ := hback _ hnumbers demoFilter (by decide)
  refine ⟨?_, ?_, fun defaults hdefaults => ?_⟩
  · cases hmembers
    exact hread _ ⟨[("colour", .null)], by decide, (List.reverse_perm _).symm⟩
  · rw [hlist _ (by decide)]
    exact hplain
  · have hnone : ∀ defaults ∈ [none, some ([] : List Binary32)], defaults.getD [] = [] := by decide
    exact (hback _ hnumbers _ (by simp [FiniteDefaults, hnone defaults hdefaults])).2.1

end Definition

end Patchbay
