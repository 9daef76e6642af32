import Patchbay.Json.Basic
import Patchbay.Proofs.Rounding

/-!
# Numbers that are written out in full

A finite 32-bit number has finitely many decimal places, and written with all of them it is read
back by way of 64 bits.  Neither of the two roundings on the way has anything to round, because
every number of the narrower format is one of the wider.

* `BinaryFormat.round_exact` — rounding a number of the format gives that number.
* `BinaryFormat.exists_units_eq` — a format has every number whose significand it can hold, and so
  `BinaryFormat.exists_widened`: a wider format has all numbers of a narrower one.
* `JsonNumber.toBinary32_ofBinary32` — **a finite number that is written out is read back, bit for
  bit.**
-/

namespace Patchbay

/-! ## Rounding what is exact -/

lemma roundHalfEven_exact (quotient : Nat) {den : Nat} (hden : 0 < den) :
    roundHalfEven (quotient * den) den = quotient := by
  simp [roundHalfEven, Nat.mul_div_cancel _ hden, hden]

namespace BinaryFormat

variable {f g : BinaryFormat} {m : Nat}

/-- A magnitude is its exponent field and its significand. -/
lemma shift_mul_hidden_add (m : Nat) : f.shift m * f.hidden + f.significand m = m := by
  rcases Nat.lt_or_ge m f.hidden with hlt | hge
  · rw [shift_of_lt hlt, significand, if_pos hlt, Nat.zero_mul, Nat.zero_add]
  · rw [significand, if_neg (Nat.not_lt.mpr hge), shift, Nat.sub_mul, Nat.one_mul]
    have hle : f.hidden ≤ m / f.hidden * f.hidden :=
      Nat.le_mul_of_pos_left _ (Nat.div_pos hge f.hidden_pos)
    have hdiv := Nat.div_add_mod' m f.hidden
    omega

/-- The place of the leading bit of a number tells its exponent. -/
lemma log2_units (m : Nat) : (f.units m).log2 - (f.precision - 1) = f.shift m := by
  have hhidden : f.hidden = 2 ^ (f.precision - 1) := rfl
  rcases Nat.lt_or_ge m f.hidden with hlt | hge
  · rw [units_of_lt hlt, shift_of_lt hlt]
    rcases Nat.eq_zero_or_pos m with rfl | hpos
    · simp
    · have hlog := (Nat.log2_lt (Nat.ne_of_gt hpos)).mpr (hhidden ▸ hlt)
      omega
  · obtain ⟨exponent, rest, hrest, rfl⟩ := exists_fields hge
    rw [units_of_fields exponent hrest, shift_of_fields exponent hrest]
    have hpos : 0 < 2 ^ exponent := Nat.two_pow_pos _
    have hlog : ((f.hidden + rest) * 2 ^ exponent).log2 = f.precision - 1 + exponent := by
      have hne : (f.hidden + rest) * 2 ^ exponent ≠ 0 :=
        Nat.ne_of_gt (Nat.mul_pos (Nat.add_pos_left f.hidden_pos _) hpos)
      rw [Nat.log2_eq_iff hne, Nat.pow_succ, Nat.pow_add, ← hhidden]
      constructor
      · exact Nat.mul_le_mul_right _ (Nat.le_add_right _ _)
      · rw [Nat.mul_right_comm]
        exact Nat.mul_lt_mul_of_pos_right (by omega) hpos
    omega

/-- **Rounding a number of the format gives that number.** -/
theorem round_exact {num den : Nat} (hden : 0 < den) (hm : m ≤ f.infinity)
    (h : num * 2 ^ f.places = f.units m * den) : f.round num den = m := by
  have hscaled : f.units m * den = f.significand m * (den * 2 ^ f.shift m) := by
    rw [units, Nat.mul_assoc, Nat.mul_comm den]
    rfl
  simp only [round, Nat.pow_eq, h, Nat.mul_div_cancel _ hden, log2_units]
  rw [hscaled, roundHalfEven_exact _ (Nat.mul_pos hden (Nat.two_pow_pos _)), shift_mul_hidden_add,
    Nat.min_eq_left hm]

/-! ## From a format to a wider one -/

lemma significand_lt (m : Nat) : f.significand m < 2 * f.hidden := by
  have := Nat.mod_lt m f.hidden_pos
  rw [significand]
  split <;> omega

lemma exists_units_of_lt {u : Nat} (h : u < 2 * f.hidden) : ∃ m, f.units m = u := by
  rcases Nat.lt_or_ge u f.hidden with hlt | hge
  · exact ⟨u, units_of_lt hlt⟩
  · refine ⟨(0 + 1) * f.hidden + (u - f.hidden), ?_⟩
    rw [units_of_fields 0 (by omega), Nat.pow_zero]
    omega

/-- **A format has every number whose significand it can hold**, overflow apart. -/
lemma exists_units_eq {s : Nat} (hs : s < 2 * f.hidden) : ∀ k, ∃ m, f.units m = s * 2 ^ k
  | 0 => by
      rw [Nat.pow_zero, Nat.mul_one]
      exact exists_units_of_lt hs
  | k + 1 => by
      obtain ⟨m, hm⟩ := exists_units_eq hs k
      rw [Nat.pow_succ, ← Nat.mul_assoc, ← hm]
      -- twice a number is the number with the next exponent, or still below the normal ones
      rcases Nat.lt_or_ge m f.hidden with hlt | hge
      · rw [units_of_lt hlt]
        exact exists_units_of_lt (by omega)
      · obtain ⟨exponent, rest, hrest, rfl⟩ := exists_fields hge
        refine ⟨(exponent + 1 + 1) * f.hidden + rest, ?_⟩
        rw [units_of_fields _ hrest, units_of_fields _ hrest, Nat.pow_succ, Nat.mul_assoc]

/-- **A wider format has all finite numbers of a narrower one**, in smaller units. -/
lemma exists_widened (hhidden : f.hidden ≤ g.hidden)
    (hrange : f.units f.infinity * 2 ^ (g.places - f.places) ≤ g.units g.infinity)
    (hm : m < f.infinity) :
    ∃ n < g.infinity, g.units n = f.units m * 2 ^ (g.places - f.places) := by
  have hs : f.significand m < 2 * g.hidden := (significand_lt m).trans_le (by omega)
  obtain ⟨n, hn⟩ := exists_units_eq hs (f.shift m + (g.places - f.places))
  have hunits : g.units n = f.units m * 2 ^ (g.places - f.places) := by
    rw [hn, Nat.pow_add, ← Nat.mul_assoc]
    rfl
  refine ⟨n, (units_strictMono (f := g)).lt_iff_lt.mp ?_, hunits⟩
  calc g.units n = f.units m * 2 ^ (g.places - f.places) := hunits
    _ < f.units f.infinity * 2 ^ (g.places - f.places) :=
        Nat.mul_lt_mul_of_pos_right (units_strictMono hm) (Nat.two_pow_pos _)
    _ ≤ g.units g.infinity := hrange

section Widened

variable {n : Nat} (hplaces : f.places ≤ g.places)
  (hunits : g.units n = f.units m * 2 ^ (g.places - f.places))
include hplaces hunits

lemma units_mul_pow : g.units n * 2 ^ f.places = f.units m * 2 ^ g.places := by
  rw [hunits, Nat.mul_assoc, ← Nat.pow_add, Nat.sub_add_cancel hplaces]

/-- Reading all decimal places of a number gives it in the wider format. -/
lemma roundScientific_widened (hn : n ≤ g.infinity) (hpos : 0 < f.places) :
    g.roundScientific (f.units m * Nat.pow 5 f.places) (-(f.places : Int)) = n := by
  rw [roundScientific, Nat.pow_eq]
  split_ifs with hzero htop hsmall hsign
  · have hm : f.units m = 0 := (Nat.mul_eq_zero.mp hzero).resolve_right (by positivity)
    have hn : g.units n = g.units 0 := by rw [hunits, hm, Nat.zero_mul, units_of_lt g.hidden_pos]
    exact (units_strictMono.injective hn).symm
  · omega
  · omega
  · omega
  · rw [neg_neg, Int.toNat_natCast]
    refine round_exact (Nat.pow_pos (by decide)) hn ?_
    have hten : 10 ^ f.places = 2 ^ f.places * 5 ^ f.places := by rw [← Nat.mul_pow]
    rw [Nat.pow_eq, hten, ← Nat.mul_assoc, units_mul_pow hplaces hunits]
    ring

/-- Narrowing gives it back. -/
lemma round_widened (hm : m ≤ f.infinity) : f.round (g.units n) (Nat.pow 2 g.places) = m :=
  round_exact (Nat.two_pow_pos _) hm (units_mul_pow hplaces hunits)

end Widened

end BinaryFormat

/-! ## Written and read back -/

/-- **A finite number that is written out is read back**, the sign of zero included. -/
theorem JsonNumber.toBinary32_ofBinary32 {x : Binary32} (h : x.isFinite = true) :
    (ofBinary32 x).toBinary32 = x := by
  have hm : x.magnitude < BinaryFormat.single.infinity := of_decide_eq_true h
  obtain ⟨n, hn, hunits⟩ := BinaryFormat.exists_widened (g := .double) (by decide +kernel)
    (by decide +kernel) hm
  have hread := BinaryFormat.roundScientific_widened (by decide) hunits hn.le (by decide)
  have hnarrowed := BinaryFormat.round_widened (by decide) hunits hm.le
  rw [ofBinary32, toBinary32, Binary64.ofScientific, hread, Binary64.toBinary32]
  simp only [hn, if_true, hnarrowed]
  have hlt := hm.trans Binary32.infinity_lt
  exact Binary32.ext_magnitude (Binary32.negative_ofMagnitude _ hlt)
    (Binary32.magnitude_ofMagnitude _ hlt)

end Patchbay
