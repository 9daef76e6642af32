import Patchbay.Number.Binary32
import Mathlib.Algebra.Order.Field.Rat
import Mathlib.Order.Monotone.Basic
import Mathlib.Tactic.FieldSimp
import Mathlib.Tactic.Linarith
import Mathlib.Tactic.Positivity
import Mathlib.Tactic.Ring

/-!
# The nearest number of a format

A decimal is read as the number of a binary format that lies nearest to it.  The shortest decimal of
a number is looked for in an interval of whole multiples of a small unit; this file says what that
interval has to do with distances between fractions.

* `BinaryFormat.units_succ` — from a magnitude to the next, the number grows by a power of two.
* `BinaryFormat.IsNearest` — the magnitude nearest to a fraction, ties to even, and
  `IsNearest.unique`: **there is no other**.
* `BinaryFormat.isNearest_of_contains` — whatever the interval of a magnitude contains is nearest to
  the magnitude.
* `BinaryFormat.isNearest_shortest` — **the shortest decimal of a magnitude reads back as it.**
* `Binary32.IsNearest` — the number nearest to a fraction, and `Binary32.isNearest_iff`: it has the
  sign of the fraction and the nearest magnitude.
-/

namespace Patchbay

/-! ## The numbers of a format, in order -/

namespace BinaryFormat

variable (f : BinaryFormat)

lemma hidden_pos : 0 < f.hidden := Nat.pow_pos (by decide)

variable {f} {m : Nat}

lemma units_of_lt (h : m < f.hidden) : f.units m = m := by
  simp [units, significand, shift, h, Nat.div_eq_of_lt]

lemma shift_of_lt (h : m < f.hidden) : f.shift m = 0 := by
  simp [shift, Nat.div_eq_of_lt h]

/-- The number of a magnitude, by its exponent field and the rest of its bits. -/
lemma units_of_fields (exponent : Nat) {rest : Nat} (h : rest < f.hidden) :
    f.units ((exponent + 1) * f.hidden + rest) = (f.hidden + rest) * 2 ^ exponent := by
  have hle : ¬ (exponent + 1) * f.hidden + rest < f.hidden := by
    rw [Nat.not_lt, Nat.add_one_mul]
    omega
  have hdiv : ((exponent + 1) * f.hidden + rest) / f.hidden = exponent + 1 := by
    rw [Nat.mul_comm, Nat.mul_add_div f.hidden_pos, Nat.div_eq_of_lt h, Nat.add_zero]
  rw [units, significand, shift, if_neg hle, hdiv, Nat.mul_add_mod_of_lt h]
  rfl

lemma shift_of_fields (exponent : Nat) {rest : Nat} (h : rest < f.hidden) :
    f.shift ((exponent + 1) * f.hidden + rest) = exponent := by
  rw [shift, Nat.mul_comm, Nat.mul_add_div f.hidden_pos, Nat.div_eq_of_lt h]
  rfl

lemma exists_fields (h : f.hidden ≤ m) :
    ∃ exponent rest, rest < f.hidden ∧ m = (exponent + 1) * f.hidden + rest := by
  have hpos := Nat.div_pos h f.hidden_pos
  refine ⟨m / f.hidden - 1, m % f.hidden, Nat.mod_lt _ f.hidden_pos, ?_⟩
  rw [Nat.sub_add_cancel hpos, Nat.mul_comm, Nat.div_add_mod]

/-- **From a magnitude to the next**, the number grows by the weight of the last bit. -/
theorem units_succ (m : Nat) : f.units (m + 1) = f.units m + 2 ^ f.shift m := by
  rcases Nat.lt_or_ge m f.hidden with hlt | hge
  · rw [units_of_lt hlt, shift_of_lt hlt]
    rcases Nat.lt_or_ge (m + 1) f.hidden with hnext | hnext
    · exact units_of_lt hnext
    · have hm : m + 1 = (0 + 1) * f.hidden + 0 := by omega
      rw [hm, units_of_fields 0 f.hidden_pos]
      omega
  · obtain ⟨exponent, rest, hrest, rfl⟩ := exists_fields hge
    rw [units_of_fields exponent hrest, shift_of_fields exponent hrest]
    rcases Nat.lt_or_ge (rest + 1) f.hidden with hnext | hnext
    · rw [Nat.add_assoc, units_of_fields exponent hnext]
      ring
    · -- the last magnitude of an exponent field is followed by the first of the next
      have hm : (exponent + 1) * f.hidden + rest + 1 = (exponent + 1 + 1) * f.hidden + 0 := by
        rw [Nat.add_one_mul (exponent + 1)]
        omega
      have hhidden : f.hidden = rest + 1 := by omega
      rw [hm, units_of_fields (exponent + 1) f.hidden_pos, hhidden]
      ring

theorem units_strictMono : StrictMono f.units := by
  refine strictMono_nat_of_lt_succ fun m => ?_
  rw [units_succ]
  exact Nat.lt_add_of_pos_right (Nat.two_pow_pos _)

/-- The exponent grows at the powers of two, the least normal number apart. -/
lemma shift_succ (m : Nat) :
    f.shift (m + 1) = f.shift m + if f.hidden < m + 1 ∧ (m + 1) % f.hidden = 0 then 1 else 0 := by
  simp only [shift, Nat.succ_div, ← Nat.dvd_iff_mod_eq_zero]
  rcases Nat.lt_or_ge m f.hidden with hlt | hge
  · have hnot : ¬ (f.hidden < m + 1 ∧ f.hidden ∣ m + 1) := by omega
    rw [Nat.div_eq_of_lt hlt, if_neg hnot]
    split <;> omega
  · have hpos := Nat.div_pos hge f.hidden_pos
    simp only [Nat.lt_succ_of_le hge, true_and]
    split <;> omega

/-! ## The interval of a magnitude -/

variable (f m) in
lemma interval_centre : (f.interval m).centre = 4 * (f.units m * 5 ^ f.places) := rfl

variable (f m) in
lemma interval_above : (f.interval m).above = 2 * (2 ^ f.shift m * 5 ^ f.places) := rfl

variable (f m) in
/-- The interval reaches half the way to the magnitude before. -/
lemma interval_below_succ : (f.interval (m + 1)).below = 2 * (2 ^ f.shift m * 5 ^ f.places) := by
  by_cases hpower : f.hidden < m + 1 ∧ (m + 1) % f.hidden = 0
  · have hshift : f.shift (m + 1) = f.shift m + 1 := by rw [shift_succ, if_pos hpower]
    simp only [interval, hshift, hpower, decide_true, Bool.and_self, if_true, Nat.pow_eq]
    ring
  · have hshift : f.shift (m + 1) = f.shift m := by rw [shift_succ, if_neg hpower, Nat.add_zero]
    simp only [interval, hshift, Nat.pow_eq]
    rw [if_neg]
    simpa using hpower

variable (f m) in
lemma centre_succ :
    (f.interval (m + 1)).centre = (f.interval m).centre + 4 * (2 ^ f.shift m * 5 ^ f.places) := by
  rw [interval_centre, interval_centre, units_succ]
  ring

variable (f m) in
lemma interval_contains_centre : (f.interval m).contains (f.interval m).centre = true := by
  have hunit : 0 < 2 ^ f.shift m * 5 ^ f.places := by positivity
  have habove : 0 < (f.interval m).above := by
    rw [interval_above]
    omega
  have hbelow : 0 < (f.interval m).below := by
    simp only [interval, Nat.pow_eq]
    split <;> omega
  rw [RoundingInterval.contains]
  split <;> simp [habove, hbelow]

lemma centre_mono {m n : Nat} (h : m ≤ n) : (f.interval m).centre ≤ (f.interval n).centre := by
  rw [interval_centre, interval_centre]
  exact Nat.mul_le_mul_left _ (Nat.mul_le_mul_right _ (units_strictMono.monotone h))

variable {x : Nat}

/-- What the interval contains lies above the middle between the magnitude and a lesser one, and at
most on it if the magnitude is even. -/
lemma centre_add_centre_le (h : (f.interval m).contains x = true) {n : Nat} (hn : n < m) :
    (f.interval n).centre + (f.interval m).centre ≤ 2 * x ∧
      (2 * x ≤ (f.interval n).centre + (f.interval m).centre → m % 2 = 0) := by
  obtain ⟨k, rfl⟩ := Nat.exists_eq_add_of_lt hn
  have hbefore : (f.interval n).centre ≤ (f.interval (n + k)).centre := centre_mono (by omega)
  have hcentre := centre_succ f (n + k)
  have hbelow := interval_below_succ f (n + k)
  rw [RoundingInterval.contains] at h
  split at h
  · rename_i hclosed
    have heven : (n + k + 1) % 2 = 0 := of_decide_eq_true hclosed
    simp only [Bool.and_eq_true, decide_eq_true_eq] at h
    omega
  · simp only [Bool.and_eq_true, decide_eq_true_eq] at h
    omega

/-- What the interval contains lies below the middle between the magnitude and a greater one, and at
most on it if the magnitude is even. -/
lemma le_centre_add_centre (h : (f.interval m).contains x = true) {n : Nat} (hn : m < n) :
    2 * x ≤ (f.interval m).centre + (f.interval n).centre ∧
      ((f.interval m).centre + (f.interval n).centre ≤ 2 * x → m % 2 = 0) := by
  have hafter : (f.interval (m + 1)).centre ≤ (f.interval n).centre := centre_mono hn
  have hcentre := centre_succ f m
  have habove := interval_above f m
  rw [RoundingInterval.contains] at h
  split at h
  · rename_i hclosed
    have heven : m % 2 = 0 := of_decide_eq_true hclosed
    simp only [Bool.and_eq_true, decide_eq_true_eq] at h
    omega
  · simp only [Bool.and_eq_true, decide_eq_true_eq] at h
    omega

end BinaryFormat

/-! ## The shortest decimal -/

namespace RoundingInterval

variable {i : RoundingInterval}

/-- A grid point that is taken lies in the interval. -/
lemma contains_of_hit? {step k : Nat} (h : i.hit? step = some k) :
    i.contains (k * step) = true := by
  rw [hit?] at h
  split at h
  · split_ifs at h <;> cases h <;> assumption
  · cases h
    assumption
  · cases h
    assumption
  · cases h

/-- So does the decimal that is found in the end. -/
lemma contains_coarsest (hquarters : 4 ∣ i.centre) (hcentre : i.contains i.centre = true) :
    ∀ t, i.contains (4 * i.coarsest t) = true
  | 0 => by
      rw [coarsest, Nat.mul_div_cancel' hquarters]
      exact hcentre
  | t + 1 => by
      rw [coarsest]
      split
      · rename_i multiple hhit
        have h := contains_of_hit? hhit
        rwa [Nat.mul_left_comm] at h
      · exact contains_coarsest hquarters hcentre t

end RoundingInterval

/-! ## Distances -/

/-- The number that a decimal stands for. -/
def Decimal.value (d : Decimal) : ℚ := d.units / 10 ^ d.places

lemma Decimal.value_nonneg (d : Decimal) : 0 ≤ d.value := by
  rw [value]
  positivity

/-- Of two numbers, the lesser one is as near to a third if that does not lie above their middle. -/
lemma abs_sub_le_iff_le_middle {a b q : ℚ} (h : a < b) : |a - q| ≤ |b - q| ↔ 2 * q ≤ a + b := by
  have hsquares : (b - q) ^ 2 - (a - q) ^ 2 = (b - a) * (a + b - 2 * q) := by ring
  rw [← sq_le_sq, ← sub_nonneg, hsquares, mul_nonneg_iff_of_pos_left (sub_pos.mpr h), sub_nonneg]

/-- The greater one is as near if it does not lie below. -/
lemma abs_sub_le_iff_middle_le {a b q : ℚ} (h : a < b) : |b - q| ≤ |a - q| ↔ a + b ≤ 2 * q := by
  have hsquares : (a - q) ^ 2 - (b - q) ^ 2 = (b - a) * (2 * q - (a + b)) := by ring
  rw [← sq_le_sq, ← sub_nonneg, hsquares, mul_nonneg_iff_of_pos_left (sub_pos.mpr h), sub_nonneg]

namespace BinaryFormat

variable {f : BinaryFormat} {m : Nat} {q : ℚ}

/-- The number that a magnitude stands for.  Infinity counts as the number that would follow the
greatest finite one. -/
def value (f : BinaryFormat) (magnitude : Nat) : ℚ := f.units magnitude / 2 ^ f.places

/-- **The magnitude nearest to a fraction**: no other is nearer, and if another is as near then this
one is even.  A fraction is nearest to infinity from half a step behind the greatest finite number
on. -/
structure IsNearest (f : BinaryFormat) (q : ℚ) (m : Nat) : Prop where
  le_infinity : m ≤ f.infinity
  nearest : ∀ n ≤ f.infinity, |f.value m - q| ≤ |f.value n - q|
  even : ∀ n ≤ f.infinity, n ≠ m → |f.value n - q| = |f.value m - q| → m % 2 = 0

theorem value_strictMono : StrictMono f.value := by
  intro m n h
  have hunits : (f.units m : ℚ) < f.units n := by exact_mod_cast units_strictMono h
  exact div_lt_div_of_pos_right hunits (by positivity)

lemma value_nonneg (m : Nat) : 0 ≤ f.value m := by
  rw [value]
  positivity

lemma value_zero : f.value 0 = 0 := by
  rw [value, units_of_lt f.hidden_pos]
  simp

/-- Only one magnitude is nearest: two would be even, and nearer than both is what lies between
them. -/
theorem IsNearest.unique {n : Nat} (hm : f.IsNearest q m) (hn : f.IsNearest q n) : m = n := by
  by_contra hne
  wlog hlt : m < n generalizing m n
  · exact this hn hm (Ne.symm hne) (by omega)
  have htie : |f.value n - q| = |f.value m - q| :=
    le_antisymm (hn.nearest m hm.le_infinity) (hm.nearest n hn.le_infinity)
  have hevenm := hm.even n hn.le_infinity (Ne.symm hne) htie
  have hevenn := hn.even m hm.le_infinity hne htie.symm
  have hbetween : m + 1 < n := by omega
  have hle : m + 1 ≤ f.infinity := by
    have := hn.le_infinity
    omega
  have hlow := (abs_sub_le_iff_le_middle (value_strictMono m.lt_succ_self)).mp (hm.nearest _ hle)
  have hhigh := (abs_sub_le_iff_middle_le (value_strictMono hbetween)).mp (hn.nearest _ hle)
  have := value_strictMono (f := f) hlt
  linarith

/-- A fraction lies below every number that is greater than the nearest. -/
lemma IsNearest.lt_value {n : Nat} (h : f.IsNearest q m) (hn : n ≤ f.infinity) (hlt : m < n) :
    q < f.value n := by
  have hvalue := value_strictMono (f := f) hlt
  have := (abs_sub_le_iff_le_middle hvalue).mp (h.nearest n hn)
  linarith

/-- A fraction lies above every number that is less than the nearest. -/
lemma IsNearest.value_lt {n : Nat} (h : f.IsNearest q m) (hn : n ≤ f.infinity) (hlt : n < m) :
    f.value n < q := by
  have hvalue := value_strictMono (f := f) hlt
  have := (abs_sub_le_iff_middle_le hvalue).mp (h.nearest n hn)
  linarith

/-- A number is its centre, counted in quarters of the last place. -/
lemma value_eq_centre (m : Nat) :
    f.value m = (f.interval m).centre / (4 * 10 ^ f.places) := by
  have hten : (10 : ℚ) ^ f.places = 2 ^ f.places * 5 ^ f.places := by
    rw [← mul_pow]
    norm_num
  rw [value, interval_centre, hten]
  push_cast
  field_simp

lemma value_add_value (m n : Nat) : f.value m + f.value n =
    ((f.interval m).centre + (f.interval n).centre : ℕ) / (4 * 10 ^ f.places) := by
  rw [value_eq_centre, value_eq_centre, ← add_div]
  push_cast
  rfl

lemma two_mul_value_decimal (units places : Nat) :
    2 * Decimal.value ⟨units, places⟩ = (2 * (4 * units) : ℕ) / (4 * 10 ^ places) := by
  rw [Decimal.value]
  push_cast
  field_simp

/-- A decimal and the middle of two numbers are compared by their quarters. -/
lemma value_add_value_le_iff {m n units : Nat} :
    f.value m + f.value n ≤ 2 * Decimal.value ⟨units, f.places⟩ ↔
      (f.interval m).centre + (f.interval n).centre ≤ 2 * (4 * units) := by
  rw [value_add_value, two_mul_value_decimal, div_le_div_iff_of_pos_right (by positivity),
    Nat.cast_le]

lemma le_value_add_value_iff {m n units : Nat} :
    2 * Decimal.value ⟨units, f.places⟩ ≤ f.value m + f.value n ↔
      2 * (4 * units) ≤ (f.interval m).centre + (f.interval n).centre := by
  rw [value_add_value, two_mul_value_decimal, div_le_div_iff_of_pos_right (by positivity),
    Nat.cast_le]

/-- **Whatever the interval of a magnitude contains is nearest to the magnitude.** -/
theorem isNearest_of_contains (hm : m ≤ f.infinity) {units : Nat}
    (h : (f.interval m).contains (4 * units) = true) :
    f.IsNearest (Decimal.value ⟨units, f.places⟩) m where
  le_infinity := hm
  nearest := by
    intro n _
    rcases Nat.lt_trichotomy n m with hlt | rfl | hlt
    · rw [abs_sub_le_iff_middle_le (value_strictMono hlt), value_add_value_le_iff]
      exact (centre_add_centre_le h hlt).1
    · exact le_rfl
    · rw [abs_sub_le_iff_le_middle (value_strictMono hlt), le_value_add_value_iff]
      exact (le_centre_add_centre h hlt).1
  even := by
    intro n _ hne htie
    rcases Nat.lt_or_gt_of_ne hne with hlt | hlt
    · refine (centre_add_centre_le h hlt).2 ?_
      rw [← le_value_add_value_iff, ← abs_sub_le_iff_le_middle (value_strictMono hlt)]
      exact htie.le
    · refine (le_centre_add_centre h hlt).2 ?_
      rw [← value_add_value_le_iff, ← abs_sub_le_iff_middle_le (value_strictMono hlt)]
      exact htie.le

/-- **The shortest decimal of a magnitude is nearest to it.** -/
theorem isNearest_shortest (hm : m ≤ f.infinity) : f.IsNearest (f.shortest m).value m :=
  isNearest_of_contains hm
    (RoundingInterval.contains_coarsest ⟨_, rfl⟩ (interval_contains_centre f m) _)

/-- Shortest decimals do not cross a number that has an exact one. -/
lemma shortest_lt_value_iff {n : Nat} (hm : m ≤ f.infinity) (hn : n ≤ f.infinity)
    (hexact : (f.shortest n).value = f.value n) :
    (f.shortest m).value < f.value n ↔ m < n := by
  refine ⟨fun hlt => ?_, (isNearest_shortest hm).lt_value hn⟩
  by_contra hge
  rcases Nat.eq_or_lt_of_not_lt hge with rfl | hgt
  · exact hlt.ne hexact
  · exact lt_asymm hlt ((isNearest_shortest hm).value_lt hn hgt)

lemma value_lt_shortest_iff {n : Nat} (hm : m ≤ f.infinity) (hn : n ≤ f.infinity)
    (hexact : (f.shortest n).value = f.value n) :
    f.value n < (f.shortest m).value ↔ n < m := by
  refine ⟨fun hlt => ?_, (isNearest_shortest hm).value_lt hn⟩
  by_contra hge
  rcases Nat.eq_or_lt_of_not_lt hge with rfl | hgt
  · exact hlt.ne' hexact
  · exact lt_asymm hlt ((isNearest_shortest hm).lt_value hn hgt)

end BinaryFormat

/-! ## Numbers of the 32-bit format -/

/-- A number with a sign put in front. -/
def signed (negative : Bool) (q : ℚ) : ℚ := if negative then -q else q

lemma abs_signed_sub_signed (negative : Bool) (a b : ℚ) :
    |signed negative a - signed negative b| = |a - b| := by
  cases negative with
  | false => rfl
  | true =>
      simp only [signed, if_true]
      rw [neg_sub_neg, abs_sub_comm]

lemma abs_signed_not_sub_signed (negative : Bool) {a b : ℚ} (ha : 0 ≤ a) (hb : 0 ≤ b) :
    |signed (!negative) a - signed negative b| = a + b := by
  cases negative with
  | false =>
      simp only [signed, Bool.not_false, if_true, Bool.false_eq_true, if_false]
      rw [abs_of_nonpos (by linarith)]
      ring
  | true =>
      simp only [signed, Bool.not_true, if_true, Bool.false_eq_true, if_false]
      rw [abs_of_nonneg (by linarith)]
      ring

namespace Binary32

/-- The number that bits stand for.  The infinities count as the numbers that would follow the
greatest finite ones. -/
def value (x : Binary32) : ℚ := signed x.negative (BinaryFormat.single.value x.magnitude)

/-- **The number nearest to a fraction** with a given sign: of all numbers none is nearer, and if
another is as near then the last bit of this one is zero.  The sign tells the two zeros apart. -/
structure IsNearest (negative : Bool) (q : ℚ) (x : Binary32) : Prop where
  sign : x.negative = negative
  number : x.isNaN = false
  nearest : ∀ y : Binary32, y.isNaN = false → |x.value - q| ≤ |y.value - q|
  even : ∀ y : Binary32, y.isNaN = false → y ≠ x → |y.value - q| = |x.value - q| →
    x.magnitude % 2 = 0

/-- A number is its sign and its magnitude. -/
lemma ext_magnitude {x y : Binary32} (hsign : x.negative = y.negative)
    (hmagnitude : x.magnitude = y.magnitude) : x = y := by
  obtain ⟨a⟩ := x
  obtain ⟨b⟩ := y
  have ha := a.toNat_lt
  have hb := b.toNat_lt
  simp only [negative, magnitude, decide_eq_decide, Nat.reducePow, Nat.pow_eq] at hsign hmagnitude
  rw [mk.injEq, ← UInt32.toNat_inj]
  omega

lemma toNat_bits_ofMagnitude (negative : Bool) {m : Nat} (hm : m < 2 ^ 31) :
    (ofMagnitude negative m).bits.toNat = (if negative then 2 ^ 31 else 0) + m := by
  simp only [ofMagnitude, UInt32.toNat_ofNat', Nat.pow_eq]
  refine Nat.mod_eq_of_lt ?_
  split <;> omega

lemma negative_ofMagnitude (negative : Bool) {m : Nat} (hm : m < 2 ^ 31) :
    (ofMagnitude negative m).negative = negative := by
  rw [Binary32.negative, toNat_bits_ofMagnitude negative hm]
  cases negative with
  | false => simpa using hm
  | true => simp

lemma magnitude_ofMagnitude (negative : Bool) {m : Nat} (hm : m < 2 ^ 31) :
    (ofMagnitude negative m).magnitude = m := by
  rw [magnitude, toNat_bits_ofMagnitude negative hm]
  cases negative with
  | false => simpa using hm
  | true => simpa using hm

lemma isNaN_eq_false_iff {x : Binary32} :
    x.isNaN = false ↔ x.magnitude ≤ BinaryFormat.single.infinity := by
  simp [isNaN]

lemma infinity_lt : BinaryFormat.single.infinity < 2 ^ 31 := by decide

lemma value_ofMagnitude (negative : Bool) {m : Nat} (hm : m ≤ BinaryFormat.single.infinity) :
    (ofMagnitude negative m).value = signed negative (BinaryFormat.single.value m) := by
  have hlt := hm.trans_lt infinity_lt
  rw [value, negative_ofMagnitude negative hlt, magnitude_ofMagnitude negative hlt]

variable {x : Binary32} {negative : Bool} {q : ℚ}

/-- The other sign is no nearer than zero. -/
lemma abs_sub_of_sign_ne {y : Binary32} (hq : 0 ≤ q) (hsign : y.negative ≠ negative) :
    |y.value - signed negative q| = BinaryFormat.single.value y.magnitude + q := by
  rw [value, Bool.eq_not_of_ne hsign,
    abs_signed_not_sub_signed negative (BinaryFormat.value_nonneg _) hq]

/-- The nearest number has the nearest magnitude. -/
lemma IsNearest.magnitude (h : x.IsNearest negative (signed negative q)) :
    BinaryFormat.single.IsNearest q x.magnitude := by
  have hvalue : x.value = signed negative (BinaryFormat.single.value x.magnitude) := by
    rw [value, h.sign]
  have hnumber : ∀ n ≤ BinaryFormat.single.infinity, (ofMagnitude negative n).isNaN = false := by
    intro n hn
    rw [isNaN_eq_false_iff, magnitude_ofMagnitude negative (hn.trans_lt infinity_lt)]
    exact hn
  refine ⟨isNaN_eq_false_iff.mp h.number, fun n hn => ?_, fun n hn hne htie => ?_⟩
  · have hnearest := h.nearest _ (hnumber n hn)
    rwa [hvalue, value_ofMagnitude negative hn, abs_signed_sub_signed,
      abs_signed_sub_signed] at hnearest
  · refine h.even _ (hnumber n hn) ?_ ?_
    · rintro rfl
      exact hne (magnitude_ofMagnitude negative (hn.trans_lt infinity_lt)).symm
    · rwa [hvalue, value_ofMagnitude negative hn, abs_signed_sub_signed, abs_signed_sub_signed]

/-- The nearest magnitude makes the nearest number: the other sign does not come any nearer than
zero. -/
lemma isNearest_of_magnitude (hq : 0 ≤ q) (h : BinaryFormat.single.IsNearest q x.magnitude) :
    x.IsNearest x.negative (signed x.negative q) := by
  have hvalue : |x.value - signed x.negative q| =
      |BinaryFormat.single.value x.magnitude - q| := abs_signed_sub_signed ..
  have hzero : |BinaryFormat.single.value 0 - q| = q := by
    rw [BinaryFormat.value_zero, zero_sub, abs_neg, abs_of_nonneg hq]
  refine ⟨rfl, isNaN_eq_false_iff.mpr h.le_infinity, fun y hy => ?_, fun y hy hne htie => ?_⟩
  · rw [isNaN_eq_false_iff] at hy
    rw [hvalue]
    by_cases hsign : y.negative = x.negative
    · rw [value, hsign, abs_signed_sub_signed]
      exact h.nearest _ hy
    · rw [abs_sub_of_sign_ne hq hsign]
      have hnear := h.nearest 0 (Nat.zero_le _)
      have hnonneg := BinaryFormat.value_nonneg (f := BinaryFormat.single) y.magnitude
      linarith
  · rw [isNaN_eq_false_iff] at hy
    rw [hvalue] at htie
    by_cases hsign : y.negative = x.negative
    · rw [value, hsign, abs_signed_sub_signed] at htie
      exact h.even _ hy (fun heq => hne (ext_magnitude hsign heq)) htie
    · -- only a zero of the other sign can be as near, and then the zero of this sign is
      rw [abs_sub_of_sign_ne hq hsign] at htie
      by_cases hm : x.magnitude = 0
      · simp [hm]
      · have hnear := h.nearest 0 (Nat.zero_le _)
        have hnonneg := BinaryFormat.value_nonneg (f := BinaryFormat.single) y.magnitude
        exact h.even 0 (Nat.zero_le _) (Ne.symm hm) (by linarith)

/-- **The nearest number is the nearest magnitude with the sign of the fraction.** -/
theorem isNearest_iff (hq : 0 ≤ q) : x.IsNearest negative (signed negative q) ↔
    x.negative = negative ∧ BinaryFormat.single.IsNearest q x.magnitude := by
  constructor
  · exact fun h => ⟨h.sign, h.magnitude⟩
  · rintro ⟨rfl, h⟩
    exact isNearest_of_magnitude hq h

end Binary32

end Patchbay
