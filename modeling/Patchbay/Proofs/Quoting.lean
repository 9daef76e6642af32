import Patchbay.Toml.Text
import Mathlib.Data.List.Forall2
import Mathlib.Tactic.Common
import Mathlib.Tactic.IntervalCases

/-!
# Texts in double quotes

A text is put into double quotes by writing its characters one after the other.  Most of them stand
for themselves; quotes, backslashes and control characters have to be escaped, and any character may
be.  So one text can be written in many ways, and the reader has to get it back from each of them.

* `Toml.Writes` — the ways of writing one character, as a table and a rule for codes.
* `Toml.Quotes` — **the ways of writing a text**, with `Toml.quoted`, one that always exists.
* `Toml.basicRest_writes` — the reader takes one written character at a time.
* `Toml.string?_of_quotes` — **a text is read back, however it was written.**
-/

namespace Patchbay.Toml

/-! ## Ways of writing a character -/

/-- A character that may stand for itself between double quotes: the tabulator, and whatever is no
control character, no quote and no backslash. -/
def Unescaped (c : Char) : Prop := c = '\t' ∨ (' ' ≤ c ∧ c ≠ '\x7f' ∧ c ≠ '"' ∧ c ≠ '\\')

/-- The escapes of one letter, with the characters that they stand for. -/
def letterEscapes : List (Char × Char) :=
  [('b', '\x08'), ('t', '\t'), ('n', '\n'), ('f', '\x0c'), ('r', '\r'), ('"', '"'), ('\\', '\\')]

/-- The letters before the code of a character, with the number of digits behind them. -/
def codeEscapes : List (Char × Nat) := [('u', 4), ('U', 8)]

def hexDigits : List Char :=
  ['0', '1', '2', '3', '4', '5', '6', '7', '8', '9', 'a', 'b', 'c', 'd', 'e', 'f']

/-- A hexadecimal digit and its value.  The letters may be capitals. -/
def HexDigit (digit : Char) (value : Nat) : Prop :=
  hexDigits[value]? = some digit ∨ (hexDigits.map Char.toUpper)[value]? = some digit

/-- Hexadecimal digits and the number that they stand for. -/
def HexCode (digits : List Char) (code : Nat) : Prop :=
  ∃ values, List.Forall₂ HexDigit digits values ∧ values.foldl (fun n v => 16 * n + v) 0 = code

/-- **The ways of writing a character** between double quotes. -/
inductive Writes : List Char → Char → Prop where
  | plain {c : Char} (h : Unescaped c) : Writes [c] c
  | letter {letter c : Char} (h : (letter, c) ∈ letterEscapes) : Writes ['\\', letter] c
  | code {letter c : Char} {width : Nat} {digits : List Char} (h : (letter, width) ∈ codeEscapes)
      (hlength : digits.length = width) (hcode : HexCode digits c.toNat) :
      Writes ('\\' :: letter :: digits) c

/-- **The ways of writing a text** in double quotes. -/
def Quotes (written : List Char) (text : String) : Prop :=
  ∃ pieces, List.Forall₂ Writes pieces text.toList ∧ written = '"' :: pieces.flatten ++ ['"']

/-! ## One way of writing every text -/

/-- A character with quotes, backslashes and control characters escaped. -/
def escaped (c : Char) : List Char :=
  if c = '"' ∨ c = '\\' then ['\\', c]
  else if c < ' ' ∨ c = '\x7f' then
    ['\\', 'u', '0', '0', Nat.digitChar (c.toNat / 16), Nat.digitChar (c.toNat % 16)]
  else [c]

/-- A text in double quotes. -/
def quoted (text : String) : List Char := '"' :: text.toList.flatMap escaped ++ ['"']

lemma hexDigit_digitChar {value : Nat} (h : value < 16) : HexDigit (Nat.digitChar value) value := by
  left
  interval_cases value <;> rfl

/-- The digits of a code below 256. -/
lemma hexCode_byte {code : Nat} (h : code < 256) :
    HexCode ['0', '0', Nat.digitChar (code / 16), Nat.digitChar (code % 16)] code := by
  refine ⟨[0, 0, code / 16, code % 16], ?_, ?_⟩
  · exact .cons (Or.inl rfl) (.cons (Or.inl rfl) (.cons (hexDigit_digitChar (by omega))
      (.cons (hexDigit_digitChar (by omega)) .nil)))
  · simp only [List.foldl_cons, List.foldl_nil]
    omega

lemma writes_escaped (c : Char) : Writes (escaped c) c := by
  rw [escaped]
  split_ifs with hquote hcontrol
  · refine .letter ?_
    rcases hquote with rfl | rfl <;> decide
  · have hcode : c.toNat < 256 := by
      rcases hcontrol with hlt | rfl
      · exact Nat.lt_trans hlt (by decide)
      · decide
    exact .code List.mem_cons_self rfl (hexCode_byte hcode)
  · rw [not_or] at hquote hcontrol
    exact .plain (Or.inr ⟨Char.not_lt.mp hcontrol.1, hcontrol.2, hquote.1, hquote.2⟩)

/-- Every text can be put into double quotes. -/
lemma quotes_quoted (text : String) : Quotes (quoted text) text := by
  refine ⟨text.toList.map escaped, ?_, by rw [quoted, List.flatMap_def]⟩
  rw [List.forall₂_map_left_iff, List.forall₂_same]
  exact fun c _ => writes_escaped c

/-! ## Reading a character -/

lemma isPlain_of_unescaped {c : Char} (h : Unescaped c) : isPlain c = true := by
  rcases h with rfl | ⟨hblank, hdelete, -, -⟩
  · rfl
  · have hcode : c.toNat ≠ 0x7F := fun h => hdelete (Char.toNat_inj.mp h)
    have hle : 0x20 ≤ c.toNat := hblank
    simp [isPlain, hcode, hle]

lemma hexValue?_of_hexDigit {digit : Char} {value : Nat} (h : HexDigit digit value) :
    hexValue? digit = some value := by
  have hlt : value < 16 := by
    rcases h with h | h
    · exact (List.getElem?_eq_some_iff.mp h).1
    · simpa [hexDigits] using (List.getElem?_eq_some_iff.mp h).1
  interval_cases value <;> rcases h with h | h <;> cases h <;> rfl

lemma hexNumber?_of_hexCode {digits : List Char} {code : Nat} (h : HexCode digits code) :
    hexNumber? digits = some code := by
  obtain ⟨values, hvalues, rfl⟩ := h
  rw [hexNumber?]
  generalize 0 = start
  induction hvalues generalizing start with
  | nil => rfl
  | cons hdigit _ ih =>
      rw [List.foldlM_cons, hexValue?_of_hexDigit hdigit, List.foldl_cons]
      exact ih _

lemma charOfCode?_toNat (c : Char) : charOfCode? c.toNat = some c := by
  have hvalid : c.toNat.isValidChar := c.valid
  rw [charOfCode?, if_pos hvalid, Char.ofNat_toNat]

lemma codeEscape?_of_hexCode {digits : List Char} {c : Char} (hcode : HexCode digits c.toNat)
    (s : List Char) : codeEscape? digits.length (digits ++ s) = some (c, s) := by
  simp [codeEscape?, hexNumber?_of_hexCode hcode, charOfCode?_toNat]

/-- **The reader takes one written character at a time.** -/
lemma basicRest_writes {piece : List Char} {c : Char} (h : Writes piece c) (fuel : Nat)
    (read s : List Char) :
    basicRest (fuel + 1) read (piece ++ s) = basicRest fuel (c :: read) s := by
  cases h with
  | plain h =>
      have hquote : c ≠ '"' := by
        rintro rfl
        exact absurd h (by simp [Unescaped])
      have hbackslash : c ≠ '\\' := by
        rintro rfl
        exact absurd h (by simp [Unescaped])
      rw [List.singleton_append, basicRest]
      · simp [isPlain_of_unescaped h]
      · simpa using hquote
      · simpa using hbackslash
  | letter h =>
      simp only [letterEscapes, List.mem_cons, Prod.mk.injEq, List.not_mem_nil, or_false] at h
      rcases h with ⟨rfl, rfl⟩ | ⟨rfl, rfl⟩ | ⟨rfl, rfl⟩ | ⟨rfl, rfl⟩ | ⟨rfl, rfl⟩ | ⟨rfl, rfl⟩ |
        ⟨rfl, rfl⟩ <;> rfl
  | @code letter c width digits h hlength hcode =>
      subst hlength
      have hread := codeEscape?_of_hexCode hcode s
      simp only [codeEscapes, List.mem_cons, Prod.mk.injEq, List.not_mem_nil, or_false] at h
      rcases h with ⟨rfl, hwidth⟩ | ⟨rfl, hwidth⟩
      · rw [hwidth] at hread
        simp [basicRest, escape?, hread]
      · rw [hwidth] at hread
        simp [basicRest, escape?, hread]

lemma Writes.exists_cons {piece : List Char} {c : Char} (h : Writes piece c) :
    ∃ first rest, piece = first :: rest ∧ first ≠ '"' := by
  cases h with
  | plain h =>
      refine ⟨c, [], rfl, ?_⟩
      rintro rfl
      exact absurd h (by simp [Unescaped])
  | letter _ => exact ⟨_, _, rfl, by decide⟩
  | code _ _ _ => exact ⟨_, _, rfl, by decide⟩

/-! ## Reading a text -/

/-- The characters of a text are read one after the other, up to the closing quote. -/
lemma basicRest_flatten {pieces : List (List Char)} {chars : List Char}
    (h : List.Forall₂ Writes pieces chars) : ∀ {fuel : Nat} (read rest : List Char),
      pieces.flatten.length < fuel → basicRest fuel read (pieces.flatten ++ '"' :: rest) =
        some (String.ofList (read.reverse ++ chars), rest) := by
  induction h with
  | nil =>
      intro fuel read rest hfuel
      cases fuel with
      | zero => simp at hfuel
      | succ fuel => simp [basicRest]
  | cons hpiece _ ih =>
      intro fuel read rest hfuel
      obtain ⟨first, others, rfl, -⟩ := hpiece.exists_cons
      simp only [List.flatten_cons, List.length_append, List.length_cons] at hfuel
      cases fuel with
      | zero => omega
      | succ fuel =>
          rw [List.flatten_cons, List.append_assoc, basicRest_writes hpiece, ih _ _ (by omega)]
          simp

/-- What stands behind an opening quote never starts with two more. -/
lemma flatten_append_ne {pieces : List (List Char)} {chars rest : List Char}
    (h : List.Forall₂ Writes pieces chars) (hrest : rest.head? ≠ some '"') (others : List Char) :
    pieces.flatten ++ '"' :: rest ≠ '"' :: '"' :: others := by
  cases h with
  | nil =>
      rintro heq
      exact hrest (by simp [(List.cons.inj heq).2])
  | cons hpiece _ =>
      obtain ⟨first, _, rfl, hfirst⟩ := hpiece.exists_cons
      simp [hfirst]

/-- **A text is read back, however it was written**, if no further quote follows it. -/
theorem string?_of_quotes {written rest : List Char} {text : String} (h : Quotes written text)
    (hrest : rest.head? ≠ some '"') : string? (written ++ rest) = some (text, rest) := by
  obtain ⟨pieces, hpieces, rfl⟩ := h
  have hbody : '"' :: pieces.flatten ++ ['"'] ++ rest = '"' :: (pieces.flatten ++ '"' :: rest) := by
    simp
  have hfuel : pieces.flatten.length < (pieces.flatten ++ '"' :: rest).length + 1 := by
    rw [List.length_append]
    omega
  rw [hbody, string?, basicRest_flatten hpieces _ _ hfuel]
  · simp
  · exact fun others heq => flatten_append_ne hpieces hrest others heq

end Patchbay.Toml
