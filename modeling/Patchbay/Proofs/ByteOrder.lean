import Mathlib.Algebra.Ring.Nat

/-!
# The order of texts and of their bytes

Names are compared character by character.  To compare them byte by byte, of which a character has
one to four, leads to the same order, because the bytes of a character settle its place among all
characters before they end.

* `ByteForm`, `encodeAs` — the layout of a character's code in bytes, as one recursion.
* `Precedes` — an order of bytes that does not depend on what follows.
* `bytes_lt_bytes` — **texts in ascending order have their bytes in ascending order.**
-/

namespace Patchbay

/-! ## Characters in bytes -/

/-- How a code is laid out in bytes: the first byte has `base` values from `offset` on, and
`trailing` bytes with six bits each follow. -/
structure ByteForm where
  base : Nat
  offset : Nat
  trailing : Nat

/-- The form in which a code is written. -/
def ByteForm.of (code : Nat) : ByteForm :=
  if code ≤ 127 then ⟨128, 0, 0⟩
  else if code ≤ 2047 then ⟨32, 192, 1⟩
  else if code ≤ 65535 then ⟨16, 224, 2⟩
  else ⟨8, 240, 3⟩

/-- The bytes of a code, by the number of bytes behind the first. -/
def encodeAs (base offset : Nat) : Nat → Nat → List UInt8
  | 0, code => [UInt8.ofNat (code % base + offset)]
  | trailing + 1, code =>
      encodeAs base offset trailing (code / 64) ++ [UInt8.ofNat (code % 64 + 128)]

lemma utf8EncodeChar_eq (c : Char) :
    String.utf8EncodeChar c =
      encodeAs (ByteForm.of c.val.toNat).base (ByteForm.of c.val.toNat).offset
        (ByteForm.of c.val.toNat).trailing c.val.toNat := by
  simp only [String.utf8EncodeChar, ByteForm.of]
  split_ifs with hascii
  · rw [encodeAs, Nat.mod_eq_of_lt (Nat.lt_succ_of_le hascii), Nat.add_zero]
  · rfl
  · simp [encodeAs, Nat.div_div_eq_div_mul]
  · simp [encodeAs, Nat.div_div_eq_div_mul]

/-- Of two codes, the greater one has the same form or one with greater first bytes. -/
lemma ByteForm.of_eq_or_le {m n : Nat} (h : m < n) :
    of m = of n ∨ (of m).base + (of m).offset ≤ (of n).offset := by
  simp only [of]
  split_ifs <;> simp <;> omega

/-- The forms fit bytes and hold all codes. -/
lemma ByteForm.bounds {code : Nat} (h : code < 0x110000) :
    0 < (of code).base ∧ (of code).base + (of code).offset ≤ 256 ∧
      code < (of code).base * 64 ^ (of code).trailing := by
  simp only [of]
  split_ifs <;> simp <;> omega

/-! ## The order of two characters -/

/-- Bytes that come before others in ascending order, whatever follows both. -/
def Precedes (xs ys : List UInt8) : Prop := ∀ rest rest' : List UInt8, xs ++ rest < ys ++ rest'

lemma precedes_cons {m n : Nat} (h : m < n) (hn : n < 256) (xs ys : List UInt8) :
    Precedes (UInt8.ofNat m :: xs) (UInt8.ofNat n :: ys) := by
  intro rest rest'
  refine List.cons_lt_cons_iff.mpr (Or.inl ?_)
  rw [UInt8.lt_iff_toNat_lt, UInt8.toNat_ofNat', UInt8.toNat_ofNat']
  omega

/-- In the same form, the lesser code comes first. -/
lemma precedes_encodeAs {base offset : Nat} (hbyte : base + offset ≤ 256) :
    ∀ (trailing : Nat) {m n : Nat}, m < n → n < base * 64 ^ trailing →
      Precedes (encodeAs base offset trailing m) (encodeAs base offset trailing n)
  | 0, m, n, hlt, hn => by
      rw [Nat.pow_zero, Nat.mul_one] at hn
      rw [encodeAs, encodeAs, Nat.mod_eq_of_lt hn, Nat.mod_eq_of_lt (Nat.lt_trans hlt hn)]
      exact precedes_cons (by omega) (by omega) _ _
  | trailing + 1, m, n, hlt, hn => by
      intro rest rest'
      rw [encodeAs, encodeAs, List.append_assoc, List.append_assoc]
      rcases Nat.lt_or_ge (m / 64) (n / 64) with hgroups | hgroups
      · refine precedes_encodeAs hbyte trailing hgroups ?_ _ _
        rw [Nat.div_lt_iff_lt_mul (by decide), Nat.mul_assoc, ← Nat.pow_succ]
        exact hn
      · -- only the last six bits differ
        have hsame : m / 64 = n / 64 := by omega
        rw [hsame]
        exact List.append_left_lt (precedes_cons (by omega) (by omega) [] [] rest rest')

lemma exists_encodeAs_eq_cons {base : Nat} (hbase : 0 < base) (offset : Nat) :
    ∀ trailing code : Nat, ∃ digit rest, digit < base ∧
      encodeAs base offset trailing code = UInt8.ofNat (digit + offset) :: rest
  | 0, code => ⟨code % base, [], Nat.mod_lt _ hbase, rfl⟩
  | trailing + 1, code => by
      rcases exists_encodeAs_eq_cons hbase offset trailing (code / 64) with ⟨digit, rest, hlt, heq⟩
      exact ⟨digit, _, hlt, by rw [encodeAs, heq, List.cons_append]⟩

/-- **A lesser character has lesser bytes, whatever follows.** -/
lemma precedes_utf8EncodeChar {c d : Char} (h : c < d) :
    Precedes (String.utf8EncodeChar c) (String.utf8EncodeChar d) := by
  have hlt : c.val.toNat < d.val.toNat := h
  have hcode : d.val.toNat < 0x110000 := by
    rcases d.valid with hbelow | ⟨-, habove⟩
    · exact Nat.lt_trans hbelow (by decide)
    · exact habove
  obtain ⟨hbase, -, -⟩ := ByteForm.bounds (Nat.lt_trans hlt hcode)
  obtain ⟨hbase', hbyte, hholds⟩ := ByteForm.bounds hcode
  rw [utf8EncodeChar_eq, utf8EncodeChar_eq]
  rcases ByteForm.of_eq_or_le hlt with hform | hle
  · rw [hform]
    exact precedes_encodeAs hbyte _ hlt hholds
  · obtain ⟨digit, rest, hdigit, heq⟩ := exists_encodeAs_eq_cons hbase _ _ c.val.toNat
    obtain ⟨digit', rest', hdigit', heq'⟩ := exists_encodeAs_eq_cons hbase' _ _ d.val.toNat
    rw [heq, heq']
    exact precedes_cons (by omega) (by omega) _ _

/-! ## The order of two texts -/

lemma flatMap_utf8EncodeChar_lt : ∀ {s t : List Char}, s < t →
    s.flatMap String.utf8EncodeChar < t.flatMap String.utf8EncodeChar
  | _, [], h => absurd h (List.not_lt_nil _)
  | [], d :: t, _ => by
      rw [List.flatMap_nil, List.flatMap_cons]
      cases hd : String.utf8EncodeChar d with
      | nil => simp [String.utf8EncodeChar_ne_nil] at hd
      | cons byte rest => exact List.nil_lt_cons _ _
  | c :: s, d :: t, h => by
      rw [List.flatMap_cons, List.flatMap_cons]
      rcases List.cons_lt_cons_iff.mp h with hlt | ⟨rfl, hlt⟩
      · exact precedes_utf8EncodeChar hlt _ _
      · exact List.append_left_lt (flatMap_utf8EncodeChar_lt hlt)

/-- The bytes of a text. -/
def bytes (text : String) : List UInt8 := text.toByteArray.data.toList

/-- **Texts in ascending order have their bytes in ascending order.** -/
theorem bytes_lt_bytes {s t : String} (h : s < t) : bytes s < bytes t := by
  simp only [bytes, ← String.utf8Encode_toList, List.utf8Encode, List.toList_data_toByteArray]
  exact flatMap_utf8EncodeChar_lt (String.lt_iff.mp h)

end Patchbay
