import ObjectLisp.Number.Decimal
import Mathlib.Algebra.Order.Field.Rat
import Mathlib.Algebra.Order.Field.Power
import Mathlib.Tactic.Ring

/-!
# Rounding decimals to doubles

`Decimal.nearest` depends on the number that a decimal stands for and not on how it is written
(`Decimal.nearest_congr`), and it finds a double that is there: the exact decimal of a double and
the shortest one are both read back as this double (`nearest_exactDecimal`, `nearest_shortest`).

The shortest decimal is found by search. Whatever the search finds has been read back already, and
when it finds nothing the exact decimal stands in, so nothing has to be known about the search.
-/

namespace ObjectLisp.Number

/-! ## Rounding ratios -/

/-- A common factor plays no part in rounding to a whole number. -/
theorem roundHalfEven_mul_left {k : Nat} (hk : 0 < k) (num den : Nat) :
    roundHalfEven (k * num) (k * den) = roundHalfEven num den := by
  have hcancel (a b : Nat) : 2 * (k * a) < k * b ↔ 2 * a < b := by
    rw [Nat.mul_left_comm, Nat.mul_lt_mul_left hk]
  have hcancel' (a b : Nat) : k * b < 2 * (k * a) ↔ b < 2 * a := by
    rw [Nat.mul_left_comm, Nat.mul_lt_mul_left hk]
  simp only [roundHalfEven, Nat.mul_div_mul_left _ _ hk, Nat.mul_mod_mul_left, hcancel, hcancel']

/-- A whole number is rounded to itself. -/
theorem roundHalfEven_mul_right (n : Nat) {den : Nat} (hden : 0 < den) :
    roundHalfEven (n * den) den = n := by
  simp [roundHalfEven, Nat.mul_div_cancel _ hden, hden]

/-- A common factor plays no part in rounding to a double. -/
theorem nearestMagnitude_mul_left {k : Nat} (hk : 0 < k) (num den : Nat) :
    nearestMagnitude (k * num) (k * den) = nearestMagnitude num den := by
  simp only [nearestMagnitude, Nat.mul_assoc k, Nat.mul_div_mul_left _ _ hk,
    roundHalfEven_mul_left hk]

/-- Rounding sees a ratio, not the two numbers it is made of. -/
theorem nearestMagnitude_congr {num den num' den' : Nat} (hden : 0 < den) (hden' : 0 < den')
    (h : num * den' = num' * den) : nearestMagnitude num den = nearestMagnitude num' den' := by
  calc nearestMagnitude num den
      = nearestMagnitude (den' * num) (den' * den) := (nearestMagnitude_mul_left hden' _ _).symm
    _ = nearestMagnitude (den * num') (den * den') := by
        rw [Nat.mul_comm den' num, h, Nat.mul_comm num' den, Nat.mul_comm den' den]
    _ = nearestMagnitude num' den' := nearestMagnitude_mul_left hden _ _

/-- The number of units of a finite magnitude has as many bits as its scale leaves room for. -/
theorem log2_units (b : Nat) : (significand b * 2 ^ scale b).log2 - 52 = scale b := by
  by_cases hb : b < 2 ^ 52
  · have hscale : scale b = 0 := by
      rw [scale, Nat.pow_eq, Nat.div_eq_of_lt hb]
    have hlog : b.log2 < 52 := by
      by_cases h0 : b = 0
      · rw [h0]
        decide
      · exact (Nat.log2_lt h0).2 hb
    rw [significand, hscale, Nat.zero_mul, Nat.sub_zero, Nat.pow_zero, Nat.mul_one]
    omega
  · have hsig : 2 ^ 52 ≤ significand b ∧ significand b < 2 ^ 53 := by
      simp only [significand, scale, Nat.pow_eq]
      omega
    have hne : significand b * 2 ^ scale b ≠ 0 :=
      Nat.mul_ne_zero (by omega) (Nat.two_pow_pos _).ne'
    have hlow : 52 + scale b ≤ (significand b * 2 ^ scale b).log2 := by
      rw [Nat.le_log2 hne, Nat.pow_add]
      exact Nat.mul_le_mul_right _ hsig.1
    have hhigh : (significand b * 2 ^ scale b).log2 < 53 + scale b := by
      rw [Nat.log2_lt hne, Nat.pow_add]
      exact (Nat.mul_lt_mul_right (Nat.two_pow_pos _)).2 hsig.2
    omega

/-- A ratio that is a double is rounded to this double. -/
theorem nearestMagnitude_eq_self {b num den : Nat} (hb : b ≤ infinityMagnitude) (hden : 0 < den)
    (h : num * 2 ^ 1074 = significand b * 2 ^ scale b * den) : nearestMagnitude num den = b := by
  have hround : roundHalfEven (significand b * 2 ^ scale b * den) (den * 2 ^ scale b)
      = significand b := by
    rw [Nat.mul_assoc, Nat.mul_comm (2 ^ scale b) den]
    exact roundHalfEven_mul_right _ (Nat.mul_pos hden (Nat.two_pow_pos _))
  have hsum : scale b * 2 ^ 52 + significand b = b := by
    simp only [significand, scale, Nat.pow_eq]
    omega
  simp only [nearestMagnitude, Nat.pow_eq, h, Nat.mul_div_cancel _ hden, log2_units, hround, hsum]
  exact Nat.min_eq_left hb

/-! ## Decimals -/

namespace Decimal

/-- The number that a decimal stands for. -/
def value (d : Decimal) : ℚ := d.digits * 10 ^ d.exponent

/-- A decimal as a ratio of whole numbers. -/
theorem value_eq_div (d : Decimal) :
    d.value = ((d.digits * 10 ^ d.exponent.toNat : Nat) : ℚ)
      / ((10 ^ (-d.exponent).toNat : Nat) : ℚ) := by
  have hexp : d.exponent = (d.exponent.toNat : Int) - ((-d.exponent).toNat : Int) := by omega
  rw [value]
  conv_lhs => rw [hexp, zpow_sub₀ (by norm_num), zpow_natCast, zpow_natCast]
  push_cast
  ring

/-- Equal decimals are read as the same double. -/
theorem nearest_congr {d d' : Decimal} (h : d.value = d'.value) : d.nearest = d'.nearest := by
  have hpos (e : Int) : 0 < 10 ^ (-e).toNat := Nat.pow_pos (by decide)
  rw [value_eq_div, value_eq_div, div_eq_div_iff (by exact_mod_cast (hpos _).ne')
    (by exact_mod_cast (hpos _).ne')] at h
  exact nearestMagnitude_congr (hpos _) (hpos _) (by exact_mod_cast h)

end Decimal

/-! ## The decimals of a double -/

/-- Halving `k - s` times is multiplying by a power of five and moving the decimal point. -/
theorem halvings_eq (m s k : Nat) :
    m * 2 ^ (s - k) * 5 ^ (k - s) * 2 ^ k = m * 2 ^ s * 10 ^ (k - s) := by
  have hpow : 2 ^ (s - k) * 2 ^ k = 2 ^ s * 2 ^ (k - s) := by
    rw [← Nat.pow_add, ← Nat.pow_add]
    congr 1
    omega
  calc m * 2 ^ (s - k) * 5 ^ (k - s) * 2 ^ k
      = m * (2 ^ (s - k) * 2 ^ k) * 5 ^ (k - s) := by ring
    _ = m * 2 ^ s * (2 ^ (k - s) * 5 ^ (k - s)) := by rw [hpow]; ring
    _ = m * 2 ^ s * 10 ^ (k - s) := by rw [← Nat.mul_pow]

/-- A double is read back from its exact decimal. -/
theorem nearest_exactDecimal {b : Nat} (hb : b ≤ infinityMagnitude) :
    (exactDecimal b).nearest = b := by
  have hneg : (-(exactDecimal b).exponent).toNat = 1074 - scale b := by
    simp [exactDecimal]
  have hpos : (exactDecimal b).exponent.toNat = 0 := by
    simp [exactDecimal]
  refine nearestMagnitude_eq_self hb (Nat.pow_pos (by decide)) ?_
  rw [hneg, hpos, Nat.pow_eq, Nat.pow_zero, Nat.mul_one]
  exact halvings_eq (significand b) (scale b) 1074

/-- A double is read back from its shortest decimal. -/
theorem nearest_shortest {b : Nat} (hb : b ≤ infinityMagnitude) : (shortest b).nearest = b := by
  simp only [shortest]
  cases hsearch : (List.range 17).findSome? fun n =>
      ((exactDecimal b).neighbours (n + 1)).find? (·.nearest == b) with
  | none => exact nearest_exactDecimal hb
  | some d =>
    obtain ⟨n, -, hn⟩ := List.exists_of_findSome?_eq_some hsearch
    have hd := List.find?_some hn
    exact beq_iff_eq.1 hd

end ObjectLisp.Number
