import Patchbay.Proofs.InitialValues
import Patchbay.Proofs.Rounding
import Mathlib.Data.List.TakeWhile

/-!
# Reading literals back

A literal is the only form in which the value of a parameter reaches the host script.  This file
reads literals the way a script does and says which number it gets: the literal of a number is read
as that number, bit by bit.

* `readNumber?` — a reader of script numbers, which gives a sign and an exact decimal.
* `ScriptNumber.Denotes` — the numbers of the 32-bit format that stand for what is read: the nearest
  ones, ties to even.
* `Decimal.exists_read_text` — the positional text of a decimal is read as a decimal of the same
  value, with or without the zero in front of its point.
* `Binary32.literal_round_trip` — **literals are read back**.
-/

namespace Patchbay

/-! ## Script numbers -/

/-- What a script reads: a signed infinity or a signed decimal. -/
inductive ScriptNumber where
  | infinity (negative : Bool)
  | decimal (negative : Bool) (magnitude : Decimal)
  deriving DecidableEq, Repr

/-- The decimal of digits, with a point among them or in front of them. -/
def readDecimal? (text : List Char) : Option Decimal :=
  let whole := text.takeWhile Char.isDigit
  match text.dropWhile Char.isDigit with
  | [] => if whole.isEmpty then none else some ⟨Nat.ofDigitChars 10 whole 0, 0⟩
  | '.' :: fraction =>
    if !fraction.isEmpty && fraction.all Char.isDigit then
      some ⟨Nat.ofDigitChars 10 (whole ++ fraction) 0, fraction.length⟩
    else none
  | _ => none

/-- The number behind a sign. -/
def readMagnitude? (negative : Bool) (text : List Char) : Option ScriptNumber :=
  if text = "Infinity".toList then some (.infinity negative)
  else (readDecimal? text).map (.decimal negative)

/-- **Reads a script number.** -/
def readNumber? (text : String) : Option ScriptNumber :=
  match text.toList with
  | '-' :: rest => readMagnitude? true rest
  | rest => readMagnitude? false rest

/-! ## What is read -/

/-- **The numbers that stand for what is read.** -/
def ScriptNumber.Denotes : ScriptNumber → Binary32 → Prop
  | .infinity negative, x => x = .ofMagnitude negative BinaryFormat.single.infinity
  | .decimal negative magnitude, x => x.IsNearest negative (signed negative magnitude.value)

/-- Among the numbers of the sign of a decimal, only the one with the nearest magnitude stands for
it. -/
lemma ScriptNumber.denotes_decimal_iff {x y : Binary32} {d : Decimal}
    (h : BinaryFormat.single.IsNearest d.value x.magnitude) :
    (ScriptNumber.decimal x.negative d).Denotes y ↔ y = x := by
  rw [Denotes, Binary32.isNearest_iff d.value_nonneg]
  constructor
  · rintro ⟨hsign, hy⟩
    exact Binary32.ext_magnitude hsign (hy.unique h)
  · rintro rfl
    exact ⟨rfl, h⟩

/-! ## Texts of decimals -/

lemma exists_append_zeros (digits : List Char) :
    ∃ n, dropTrailingZeros digits ++ List.replicate n '0' = digits := by
  have hzeros : digits.reverse.takeWhile (· = '0') =
      List.replicate (digits.reverse.takeWhile (· = '0')).length '0' := by
    rw [List.eq_replicate_iff]
    exact ⟨rfl, fun c hc => by simpa using List.mem_takeWhile_imp hc⟩
  refine ⟨(digits.reverse.takeWhile (· = '0')).length, ?_⟩
  rw [dropTrailingZeros, ← List.reverse_replicate, ← hzeros, ← List.reverse_append,
    List.takeWhile_append_dropWhile, List.reverse_reverse]

lemma ofDigitChars_decimalDigits (n : Nat) : Nat.ofDigitChars 10 (decimalDigits n) 0 = n :=
  Nat.ofDigitChars_toDigits (by decide) (by decide)

namespace Decimal

/-- The digits behind the point, with the zeros that are left out, are those of the remainder. -/
lemma exists_fractionDigits_zeros (d : Decimal) : ∃ zeros,
    d.fractionDigits.length + zeros = d.places ∧
      10 ^ zeros * Nat.ofDigitChars 10 d.fractionDigits 0 = d.units % 10 ^ d.places := by
  rcases Nat.eq_zero_or_pos d.places with hplaces | hplaces
  · have hnil : d.fractionDigits = [] := by
      simp only [fractionDigits, hplaces, Nat.pow_eq, Nat.pow_zero, Nat.mod_one]
      rfl
    exact ⟨0, by simp [hnil, hplaces], by simp [hnil, hplaces, Nat.mod_one]⟩
  · have hlength : (decimalDigits (d.units % 10 ^ d.places)).length ≤ d.places :=
      (Nat.length_toDigits_le_iff (by decide) hplaces).mpr (Nat.mod_lt _ (by positivity))
    obtain ⟨zeros, hzeros⟩ := exists_append_zeros
      (List.replicate (d.places - (decimalDigits (d.units % 10 ^ d.places)).length) '0' ++
        decimalDigits (d.units % 10 ^ d.places))
    change d.fractionDigits ++ _ = _ at hzeros
    refine ⟨zeros, ?_, ?_⟩
    · have hlengths := congrArg List.length hzeros
      simp only [List.length_append, List.length_replicate] at hlengths
      omega
    · have hvalues := congrArg (Nat.ofDigitChars 10 · 0) hzeros
      simp only [Nat.ofDigitChars_append, Nat.ofDigitChars_replicate_zero, Nat.mul_zero,
        ofDigitChars_decimalDigits] at hvalues
      exact hvalues

/-- Leaving out the zeros at the end does not change the value. -/
lemma value_digits (d : Decimal) :
    value ⟨Nat.ofDigitChars 10 (d.wholeDigits ++ d.fractionDigits) 0, d.fractionDigits.length⟩ =
      d.value := by
  obtain ⟨zeros, hlength, hremainder⟩ := d.exists_fractionDigits_zeros
  have hwhole : Nat.ofDigitChars 10 d.wholeDigits 0 = d.units / 10 ^ d.places :=
    ofDigitChars_decimalDigits _
  have hunits : Nat.ofDigitChars 10 (d.wholeDigits ++ d.fractionDigits) 0 * 10 ^ d.places =
      d.units * 10 ^ d.fractionDigits.length := by
    rw [Nat.ofDigitChars_append, Nat.ofDigitChars_eq_ofDigitChars_zero, hwhole]
    calc (10 ^ d.fractionDigits.length * (d.units / 10 ^ d.places) +
          Nat.ofDigitChars 10 d.fractionDigits 0) * 10 ^ d.places
        = 10 ^ d.fractionDigits.length * (10 ^ d.places * (d.units / 10 ^ d.places) +
            10 ^ zeros * Nat.ofDigitChars 10 d.fractionDigits 0) := by
          rw [← hlength, pow_add]
          ring
      _ = d.units * 10 ^ d.fractionDigits.length := by
          rw [hremainder, Nat.div_add_mod, Nat.mul_comm]
  rw [value, value, div_eq_div_iff (by positivity) (by positivity)]
  exact_mod_cast hunits

/-- There are digits behind the point unless the decimal is whole. -/
lemma fractionDigits_eq_nil_iff (d : Decimal) :
    d.fractionDigits = [] ↔ d.units % 10 ^ d.places = 0 := by
  constructor
  · intro hnil
    obtain ⟨zeros, -, hremainder⟩ := d.exists_fractionDigits_zeros
    rw [← hremainder, hnil]
    rfl
  · intro hzero
    rw [fractionDigits, dropTrailingZeros, List.reverse_eq_nil_iff, List.dropWhile_eq_nil_iff]
    intro c hc
    simp only [Nat.pow_eq, hzero, decimalDigits, Nat.toDigits_zero, List.mem_reverse,
      List.mem_append, List.mem_singleton] at hc
    rcases hc with hc | rfl
    · rw [List.eq_of_mem_replicate hc]
      rfl
    · rfl

lemma wholeDigits_eq_zero_iff (d : Decimal) :
    d.wholeDigits = ['0'] ↔ d.units < 10 ^ d.places := by
  rw [← Nat.div_eq_zero_iff_lt (by positivity)]
  constructor
  · intro hwhole
    have hvalue := congrArg (Nat.ofDigitChars 10 · 0) hwhole
    exact (ofDigitChars_decimalDigits _).symm.trans hvalue
  · intro hzero
    rw [wholeDigits, Nat.pow_eq, hzero]
    rfl

lemma text_eq (d : Decimal) : d.text =
    if d.fractionDigits = [] then d.wholeDigits else d.wholeDigits ++ '.' :: d.fractionDigits := by
  rw [text]
  split
  · rename_i hnil
    rw [if_pos hnil]
  · rename_i hne
    rw [if_neg hne]

end Decimal

/-! ## Reading them back -/

lemma readDecimal?_of_digits {whole : List Char} (hne : whole ≠ [])
    (hdigits : ∀ c ∈ whole, c.isDigit = true) :
    readDecimal? whole = some ⟨Nat.ofDigitChars 10 whole 0, 0⟩ := by
  rw [readDecimal?, List.takeWhile_eq_self_iff.mpr hdigits, List.dropWhile_eq_nil_iff.mpr hdigits]
  exact if_neg (by simpa using hne)

lemma readDecimal?_of_pointed {whole fraction : List Char} (hne : fraction ≠ [])
    (hwhole : ∀ c ∈ whole, c.isDigit = true) (hfraction : ∀ c ∈ fraction, c.isDigit = true) :
    readDecimal? (whole ++ '.' :: fraction) =
      some ⟨Nat.ofDigitChars 10 (whole ++ fraction) 0, fraction.length⟩ := by
  have htake : ('.' :: fraction).takeWhile Char.isDigit = [] := rfl
  have hdrop : ('.' :: fraction).dropWhile Char.isDigit = '.' :: fraction := rfl
  rw [readDecimal?, List.takeWhile_append_of_pos hwhole, List.dropWhile_append_of_pos hwhole,
    htake, hdrop, List.append_nil]
  exact if_pos (by simpa [hne] using hfraction)

/-- The zero in front of a point does not matter. -/
lemma readDecimal?_dropLeadingZero (text : List Char) :
    readDecimal? (dropLeadingZero text) = readDecimal? text := by
  fun_cases dropLeadingZero text with
  | case1 fraction =>
      simp [readDecimal?, Nat.ofDigitChars_cons]
  | case2 => rfl

/-- The text of a decimal is read as a decimal of the same value. -/
lemma Decimal.exists_read_text (d : Decimal) :
    ∃ e, readDecimal? d.text = some e ∧ e.value = d.value := by
  refine ⟨_, ?_, d.value_digits⟩
  rw [text_eq]
  split_ifs with hnil
  · rw [hnil, List.append_nil]
    exact readDecimal?_of_digits Nat.toDigits_ne_nil fun _ => isDigit_of_mem_wholeDigits
  · exact readDecimal?_of_pointed hnil (fun _ => isDigit_of_mem_wholeDigits)
      fun _ => isDigit_of_mem_fractionDigits

/-- A script number of digits and a point is a decimal. -/
lemma readMagnitude?_of_chars {negative : Bool} {text : List Char}
    (h : ∀ c ∈ text, c.isDigit = true ∨ c = '.') :
    readMagnitude? negative text = (readDecimal? text).map (.decimal negative) := by
  refine if_neg ?_
  rintro rfl
  exact absurd (h 'I' (by simp)) (by decide)

lemma readNumber?_of_chars {text : List Char} (h : ∀ c ∈ text, c.isDigit = true ∨ c = '.') :
    readNumber? (String.ofList text) = (readDecimal? text).map (.decimal false) := by
  rw [readNumber?, String.toList_ofList]
  split
  · exact absurd (h '-' (by simp)) (by decide)
  · exact readMagnitude?_of_chars h

lemma readNumber?_minus {text : List Char} (h : ∀ c ∈ text, c.isDigit = true ∨ c = '.') :
    readNumber? (String.ofList ('-' :: text)) = (readDecimal? text).map (.decimal true) := by
  rw [readNumber?, String.toList_ofList]
  exact readMagnitude?_of_chars h

/-! ## The shape of literals -/

/-- One digit or more. -/
def IsDigits (text : List Char) : Prop := text ≠ [] ∧ ∀ c ∈ text, c.isDigit = true

/-- Digits, and behind a point further ones. -/
inductive IsPositional : List Char → Prop
  | whole {digits : List Char} : IsDigits digits → IsPositional digits
  | pointed {whole fraction : List Char} :
      IsDigits whole → IsDigits fraction → IsPositional (whole ++ '.' :: fraction)

/-- The texts of finite numbers: `-?digits(.digits)?` and `.digits`. -/
def IsNumeral (text : List Char) : Prop :=
  IsPositional text ∨ (∃ rest, IsPositional rest ∧ text = '-' :: rest) ∨
    ∃ digits, IsDigits digits ∧ text = '.' :: digits

lemma dropLeadingZero_of_ne {text : List Char} (h : ∀ rest, text ≠ '0' :: '.' :: rest) :
    dropLeadingZero text = text := by
  fun_cases dropLeadingZero text with
  | case1 fraction => exact absurd rfl (h fraction)
  | case2 => rfl

namespace Decimal

lemma isDigits_wholeDigits (d : Decimal) : IsDigits d.wholeDigits :=
  ⟨Nat.toDigits_ne_nil, fun _ => isDigit_of_mem_wholeDigits⟩

lemma isPositional_text (d : Decimal) : IsPositional d.text := by
  rw [text_eq]
  split_ifs with hnil
  · exact .whole d.isDigits_wholeDigits
  · exact .pointed d.isDigits_wholeDigits ⟨hnil, fun _ => isDigit_of_mem_fractionDigits⟩

/-- A decimal lies between zero and one if all its digits stand behind the point. -/
lemma value_between_iff (d : Decimal) :
    0 < d.value ∧ d.value < 1 ↔ d.wholeDigits = ['0'] ∧ d.fractionDigits ≠ [] := by
  have hpos : 0 < d.value ↔ 0 < d.units := by
    rw [value, div_pos_iff_of_pos_right (by positivity), Nat.cast_pos]
  have hlt : d.value < 1 ↔ d.units < 10 ^ d.places := by
    rw [value, div_lt_one (by positivity)]
    exact_mod_cast Iff.rfl
  rw [hpos, hlt, wholeDigits_eq_zero_iff, ne_eq, fractionDigits_eq_nil_iff, and_comm]
  refine and_congr_right fun hless => ?_
  rw [Nat.mod_eq_of_lt hless, Nat.pos_iff_ne_zero]

/-- The zero in front of the point is dropped from decimals between zero and one. -/
lemma dropLeadingZero_text (d : Decimal) : dropLeadingZero d.text =
    if 0 < d.value ∧ d.value < 1 then '.' :: d.fractionDigits else d.text := by
  simp only [value_between_iff]
  split_ifs with h
  · rw [text_eq, if_neg h.2, h.1]
    rfl
  · refine dropLeadingZero_of_ne fun rest htext => h ?_
    obtain ⟨hne, hdigits⟩ := d.isDigits_wholeDigits
    rw [text_eq] at htext
    split_ifs at htext with hnil
    · rw [htext] at hdigits
      exact absurd (hdigits '.' (by simp)) (by decide)
    · refine ⟨?_, hnil⟩
      -- a second digit would stand where the point is
      match hwhole : d.wholeDigits with
      | [] => exact absurd hwhole hne
      | [c] =>
          rw [hwhole, List.singleton_append, List.cons.injEq] at htext
          rw [htext.1]
      | c :: c' :: cs =>
          rw [hwhole, List.cons_append, List.cons_append, List.cons.injEq,
            List.cons.injEq] at htext
          have hdigit := hdigits c' (by simp [hwhole])
          rw [htext.2.1] at hdigit
          exact absurd hdigit (by decide)

/-- The text without that zero begins with a point just then. -/
lemma head?_dropLeadingZero_text (d : Decimal) :
    (dropLeadingZero d.text).head? = some '.' ↔ 0 < d.value ∧ d.value < 1 := by
  rw [dropLeadingZero_text]
  split_ifs with h
  · simp [h]
  · refine iff_of_false (fun hhead => ?_) h
    obtain ⟨hne, hdigits⟩ := d.isDigits_wholeDigits
    have hfirst : d.text.head? = d.wholeDigits.head? := by
      rw [text_eq]
      split_ifs
      · rfl
      · exact List.head?_append_of_ne_nil _ hne
    rw [hfirst] at hhead
    exact absurd (hdigits '.' (List.mem_of_mem_head? hhead)) (by decide)

lemma isNumeral_dropLeadingZero_text (d : Decimal) : IsNumeral (dropLeadingZero d.text) := by
  rw [dropLeadingZero_text]
  split_ifs with h
  · exact .inr (.inr ⟨d.fractionDigits,
      ⟨(d.value_between_iff.mp h).2, fun _ => isDigit_of_mem_fractionDigits⟩, rfl⟩)
  · exact .inl d.isPositional_text

end Decimal

/-! ## Literals -/

namespace Binary32

variable {x : Binary32}

lemma isFinite_iff : x.isFinite = true ↔ x.isNaN = false ∧ x.isInfinite = false := by
  simp only [isFinite, isNaN, isInfinite, decide_eq_true_eq, decide_eq_false_iff_not]
  omega

/-- The decimal of a finite number. -/
def decimal (x : Binary32) : Decimal := BinaryFormat.single.shortest x.magnitude

lemma isNearest_decimal (h : x.isFinite = true) :
    BinaryFormat.single.IsNearest x.decimal.value x.magnitude :=
  BinaryFormat.isNearest_shortest (le_of_lt (of_decide_eq_true h))

lemma literal_of_finite (h : x.isFinite = true) : x.literal.toList =
    if x.negative then '-' :: x.decimal.text else dropLeadingZero x.decimal.text := by
  obtain ⟨hnumber, hfinite⟩ := isFinite_iff.mp h
  simp [literal, hnumber, hfinite, decimal]

lemma literal_of_infinite (h : x.isInfinite = true) :
    x.literal = if x.negative then "-Infinity" else "Infinity" := by
  have hnumber : x.isNaN = false := by
    rw [isNaN_eq_false_iff]
    exact (of_decide_eq_true h).le
  rw [literal, hnumber, h]
  rfl

/-- The literal of a finite number is read as a decimal of its sign. -/
lemma exists_read_of_finite (h : x.isFinite = true) :
    ∃ d, readNumber? x.literal = some (.decimal x.negative d) ∧ d.value = x.decimal.value := by
  obtain ⟨d, hread, hvalue⟩ := x.decimal.exists_read_text
  refine ⟨d, ?_, hvalue⟩
  rw [← String.ofList_toList (s := x.literal), literal_of_finite h]
  split_ifs with hsign
  · rw [readNumber?_minus fun _ => Decimal.text_chars, hread, Option.map_some, hsign]
  · rw [readNumber?_of_chars fun c hc => Decimal.text_chars (dropLeadingZero_subset _ hc),
      readDecimal?_dropLeadingZero, hread, Option.map_some, Bool.eq_false_iff.mpr hsign]

/-- **What the literal of a number is read as stands for that number and no other.** -/
theorem exists_read_literal (hx : x.isNaN = false) :
    ∃ n, readNumber? x.literal = some n ∧ ∀ y, n.Denotes y ↔ y = x := by
  by_cases hfinite : x.isFinite = true
  · obtain ⟨d, hread, hvalue⟩ := exists_read_of_finite hfinite
    refine ⟨_, hread, fun y => ScriptNumber.denotes_decimal_iff ?_⟩
    rw [hvalue]
    exact isNearest_decimal hfinite
  · have hinfinite : x.isInfinite = true := by
      simpa [hx] using isFinite_iff.not.mp hfinite
    have heq : x = ofMagnitude x.negative BinaryFormat.single.infinity := by
      refine ext_magnitude (negative_ofMagnitude _ infinity_lt).symm ?_
      rw [magnitude_ofMagnitude _ infinity_lt]
      exact of_decide_eq_true hinfinite
    refine ⟨.infinity x.negative, ?_, fun y => ?_⟩
    · rw [literal_of_infinite hinfinite]
      cases x.negative with
      | false => decide +kernel
      | true => decide +kernel
    · rw [ScriptNumber.Denotes, ← heq]

/-- The magnitude of one. -/
def oneMagnitude : Nat := 127 * 2 ^ 23

lemma value_oneMagnitude : BinaryFormat.single.value oneMagnitude = 1 := by
  have hunits : BinaryFormat.single.units oneMagnitude = 2 ^ 149 := by decide +kernel
  rw [BinaryFormat.value, hunits]
  norm_num [BinaryFormat.single]

/-- Zero and one are written exactly. -/
lemma shortest_value_zero : (BinaryFormat.single.shortest 0).value = 0 := by
  have hshortest : BinaryFormat.single.shortest 0 = ⟨0, 149⟩ := by decide +kernel
  simp [hshortest, Decimal.value]

lemma shortest_value_one : (BinaryFormat.single.shortest oneMagnitude).value = 1 := by
  have hshortest : BinaryFormat.single.shortest oneMagnitude = ⟨10 ^ 149, 149⟩ := by decide +kernel
  norm_num [hshortest, Decimal.value]

/-- So the decimal of a number lies between them only if the number does. -/
lemma decimal_between_iff (h : x.isFinite = true) :
    0 < x.decimal.value ∧ x.decimal.value < 1 ↔
      0 < BinaryFormat.single.value x.magnitude ∧ BinaryFormat.single.value x.magnitude < 1 := by
  have hm : x.magnitude ≤ BinaryFormat.single.infinity := le_of_lt (of_decide_eq_true h)
  have hpos := BinaryFormat.value_lt_shortest_iff hm (Nat.zero_le _)
    (shortest_value_zero.trans BinaryFormat.value_zero.symm)
  have hlt := BinaryFormat.shortest_lt_value_iff hm (n := oneMagnitude) (by decide)
    (shortest_value_one.trans value_oneMagnitude.symm)
  rw [← BinaryFormat.value_strictMono.lt_iff_lt, BinaryFormat.value_zero] at hpos
  rw [← BinaryFormat.value_strictMono.lt_iff_lt, value_oneMagnitude] at hlt
  exact and_congr hpos hlt

/-- The literal of a finite number begins with a point if the number lies between zero and one. -/
lemma head?_literal (h : x.isFinite = true) :
    x.literal.toList.head? = some '.' ↔ 0 < x.value ∧ x.value < 1 := by
  rw [literal_of_finite h, value, signed]
  split_ifs with hsign
  · have hnonneg := BinaryFormat.value_nonneg (f := BinaryFormat.single) x.magnitude
    refine iff_of_false (by simp) fun hpos => ?_
    linarith [hpos.1]
  · rw [Decimal.head?_dropLeadingZero_text, decimal_between_iff h]

lemma ne_mark_of_isDigit {c : Char} (h : c.isDigit = true) :
    c ≠ 'e' ∧ c ≠ 'E' ∧ c ≠ ',' ∧ c.isWhitespace = false := by
  refine ⟨?_, ?_, ?_, ?_⟩
  · rintro rfl
    exact absurd h (by decide)
  · rintro rfl
    exact absurd h (by decide)
  · rintro rfl
    exact absurd h (by decide)
  · rw [← Bool.not_eq_true, Char.isWhitespace]
    simp only [Bool.or_eq_true, decide_eq_true_eq]
    rintro (((rfl | rfl) | rfl) | rfl) <;> exact absurd h (by decide)

lemma isNumeral_literal (h : x.isFinite = true) : IsNumeral x.literal.toList := by
  rw [literal_of_finite h]
  split_ifs with hsign
  · exact .inr (.inl ⟨_, x.decimal.isPositional_text, rfl⟩)
  · exact x.decimal.isNumeral_dropLeadingZero_text

lemma literal_chars_of_finite (h : x.isFinite = true) :
    ∀ c ∈ x.literal.toList, c.isDigit = true ∨ c = '.' ∨ c = '-' := by
  intro c hc
  rw [literal_of_finite h] at hc
  split_ifs at hc with hsign
  · rcases List.mem_cons.mp hc with rfl | hc
    · exact .inr (.inr rfl)
    · exact (Decimal.text_chars hc).imp_right .inl
  · exact (Decimal.text_chars (dropLeadingZero_subset _ hc)).imp_right .inl

/-- **Literals are read back.**  Take any number that is not a NaN.

* A script that reads its literal gets an infinity or an exact decimal, which stands for this number
  and for no other of the format: it has the sign of the decimal, and of all numbers it is the
  nearest, ties to even.  So different numbers have different literals.
* The infinities go by their name, and the negative zero keeps its sign.
* The literal of a finite number is positional: it holds no exponent, no comma and no blank, and it
  begins with a point exactly if the number lies between zero and one. -/
theorem literal_round_trip (hx : x.isNaN = false) :
    (∃ n, readNumber? x.literal = some n ∧ ∀ y, n.Denotes y ↔ y = x) ∧
    (∀ y : Binary32, y.isNaN = false → y.literal = x.literal → y = x) ∧
    (x.isInfinite = true → x.literal = if x.negative then "-Infinity" else "Infinity") ∧
    (x.bits = 0x80000000 → x.literal = "-0") ∧
    (x.isFinite = true → (∃ d, readNumber? x.literal = some (.decimal x.negative d)) ∧
      IsNumeral x.literal.toList ∧
      (∀ c ∈ x.literal.toList, c ≠ 'e' ∧ c ≠ 'E' ∧ c ≠ ',' ∧ c.isWhitespace = false) ∧
      (x.literal.toList.head? = some '.' ↔ 0 < x.value ∧ x.value < 1)) := by
  obtain ⟨n, hread, hdenotes⟩ := exists_read_literal hx
  refine ⟨⟨n, hread, hdenotes⟩, ?_, literal_of_infinite, ?_, ?_⟩
  · intro y hy hliteral
    obtain ⟨n', hread', hdenotes'⟩ := exists_read_literal hy
    rw [hliteral, hread, Option.some.injEq] at hread'
    subst hread'
    exact (hdenotes y).mp ((hdenotes' y).mpr rfl)
  · intro hbits
    have hzero : x = ⟨0x80000000⟩ := by rw [← hbits]
    rw [hzero]
    decide +kernel
  · intro hfinite
    obtain ⟨d, hdecimal, -⟩ := exists_read_of_finite hfinite
    refine ⟨⟨d, hdecimal⟩, isNumeral_literal hfinite, fun c hc => ?_, head?_literal hfinite⟩
    rcases literal_chars_of_finite hfinite c hc with hdigit | rfl | rfl
    · exact ne_mark_of_isDigit hdigit
    · decide
    · decide

/-- The least positive number and the greatest finite one, both of which are written out in full. -/
theorem literal_round_trip_extremes :
    (∃ n, readNumber? ".000000000000000000000000000000000000000000001" = some n ∧
      ∀ y, n.Denotes y ↔ y = ⟨0x00000001⟩) ∧
    (∃ n, readNumber? "340282350000000000000000000000000000000" = some n ∧
      ∀ y, n.Denotes y ↔ y = ⟨0x7F7FFFFF⟩) ∧
    0 < value ⟨0x00000001⟩ ∧ value ⟨0x00000001⟩ < 1 := by
  have hleast : literal ⟨0x00000001⟩ = ".000000000000000000000000000000000000000000001" := by
    decide +kernel
  have hgreatest : literal ⟨0x7F7FFFFF⟩ = "340282350000000000000000000000000000000" := by
    decide +kernel
  obtain ⟨hread, -, -, -, hfinite⟩ := literal_round_trip (x := ⟨0x00000001⟩) (by decide)
  obtain ⟨hread', -⟩ := literal_round_trip (x := ⟨0x7F7FFFFF⟩) (by decide)
  rw [hleast] at hread hfinite
  rw [hgreatest] at hread'
  exact ⟨hread, hread', (hfinite (by decide)).2.2.2.mp (by decide)⟩

end Binary32

end Patchbay
