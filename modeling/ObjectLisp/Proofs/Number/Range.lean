import Mathlib
import ObjectLisp.Proofs.Number.Rounding

/-!
# The range of doubles

A ratio that is rounded to a finite double is below `2 ^ 1024`, and one that is not rounded to zero
is at least half of the smallest double. So the first digit of such a decimal has an exponent from
`-324` to `308` (`Decimal.leadingExponent_bounds`).
-/

namespace ObjectLisp.Number

/-! ## Ratios -/

theorem le_roundHalfEven (num den : Nat) : num / den ≤ roundHalfEven num den := by
  unfold roundHalfEven
  dsimp only
  split
  · omega
  · split <;> omega

/-- The bits of a ratio that is counted in smaller units. -/
theorem le_log2_div {k m num den : Nat} (hden : 0 < den) (h : 2 ^ k * den ≤ num) :
    num * 2 ^ m / den ≠ 0 ∧ k + m ≤ (num * 2 ^ m / den).log2 := by
  have hunits : 2 ^ (k + m) ≤ num * 2 ^ m / den := by
    rw [Nat.le_div_iff_mul_le hden, Nat.pow_add, Nat.mul_right_comm]
    exact Nat.mul_le_mul_right _ h
  have hne := Nat.ne_of_gt (Nat.lt_of_lt_of_le (Nat.two_pow_pos _) hunits)
  exact ⟨hne, (Nat.le_log2 hne).2 hunits⟩

/-- So many units are not counted by a finite significand and scale. -/
theorem infinityMagnitude_le {units den : Nat} (hne : units / den ≠ 0)
    (hlog : 1024 + 1074 ≤ (units / den).log2) :
    infinityMagnitude ≤ ((units / den).log2 - 52) * 2 ^ 52
      + roundHalfEven units (den * 2 ^ ((units / den).log2 - 52)) := by
  have hquotient : 2 ^ 52 ≤ units / (den * 2 ^ ((units / den).log2 - 52)) := by
    rw [← Nat.div_div_eq_div_mul, Nat.le_div_iff_mul_le (Nat.two_pow_pos _), ← Nat.pow_add]
    refine le_trans (Nat.pow_le_pow_right (by decide) ?_) (Nat.log2_self_le hne)
    omega
  have hround := le_roundHalfEven units (den * 2 ^ ((units / den).log2 - 52))
  rw [infinityMagnitude, Nat.pow_eq]
  omega

/-- A ratio with a finite nearest double is not too large. -/
theorem lt_of_nearestMagnitude_lt {num den : Nat} (hden : 0 < den)
    (h : nearestMagnitude num den < infinityMagnitude) : num < 2 ^ 1024 * den := by
  by_contra hlarge
  obtain ⟨hne, hlog⟩ := @le_log2_div 1024 1074 _ _ hden (Nat.not_lt.1 hlarge)
  have hle := infinityMagnitude_le hne hlog
  simp only [nearestMagnitude, Nat.pow_eq, Nat.min_eq_right hle, lt_irrefl, -Nat.reducePow] at h

/-- A ratio whose nearest double is not zero is not too small. -/
theorem le_of_nearestMagnitude_ne_zero {num den : Nat} (h : nearestMagnitude num den ≠ 0) :
    den ≤ 2 * (num * 2 ^ 1074) := by
  by_contra hsmall
  apply h
  have hdiv : num * 2 ^ 1074 / den = 0 := Nat.div_eq_of_lt (by omega)
  have hmod : num * 2 ^ 1074 % den = num * 2 ^ 1074 := Nat.mod_eq_of_lt (by omega)
  simp [nearestMagnitude, roundHalfEven, hdiv, hmod, Nat.not_le.1 hsmall, -Nat.reducePow]

/-! ## Decimals -/

namespace Decimal

variable {d : Decimal}

theorem value_lt_of_nearest_lt (h : d.nearest < infinityMagnitude) : d.value < 2 ^ 1024 := by
  have hpos : 0 < 10 ^ (-d.exponent).toNat := Nat.pow_pos (by decide)
  have hlt := lt_of_nearestMagnitude_lt hpos h
  rw [value_eq_div, div_lt_iff₀ (by exact_mod_cast hpos)]
  exact_mod_cast hlt

theorem le_value_of_nearest_ne_zero (h : d.nearest ≠ 0) : 1 ≤ 2 * (d.value * 2 ^ 1074) := by
  have hpos : 0 < 10 ^ (-d.exponent).toNat := Nat.pow_pos (by decide)
  have hle := le_of_nearestMagnitude_ne_zero h
  rw [value_eq_div, div_mul_eq_mul_div, mul_div_assoc', le_div_iff₀ (by exact_mod_cast hpos),
    one_mul]
  exact_mod_cast hle

/-- The first digit of a decimal other than zero tells its size. -/
theorem value_bounds (hd : d.digits ≠ 0) :
    10 ^ d.leadingExponent ≤ d.value ∧ d.value < 10 ^ (d.leadingExponent + 1) := by
  have hlength : 0 < d.length := Nat.length_toDigits_pos
  have hlow : 10 ^ (d.length - 1) ≤ d.digits := by
    by_cases hone : d.length - 1 = 0
    · rw [hone]
      exact Nat.one_le_iff_ne_zero.2 hd
    · rw [← Nat.not_lt, ← Nat.length_toDigits_le_iff (by decide) (Nat.pos_of_ne_zero hone)]
      show ¬ d.length ≤ d.length - 1
      omega
  have hhigh : d.digits < 10 ^ d.length := by
    rw [← Nat.length_toDigits_le_iff (by decide) hlength]
    exact Nat.le_refl _
  have hpos : (0 : ℚ) < 10 ^ d.exponent := zpow_pos (by norm_num) _
  have hleading : d.leadingExponent = ((d.length - 1 : Nat) : Int) + d.exponent := by
    rw [leadingExponent]
    omega
  constructor
  · rw [hleading, zpow_add₀ (by norm_num), zpow_natCast, value]
    exact mul_le_mul_of_nonneg_right (by exact_mod_cast hlow) hpos.le
  · have hnext : d.leadingExponent + 1 = (d.length : Int) + d.exponent := by omega
    rw [hnext, zpow_add₀ (by norm_num), zpow_natCast, value]
    exact mul_lt_mul_of_pos_right (by exact_mod_cast hhigh) hpos

/-- The first digit of a decimal that is read as a finite number other than zero. -/
theorem leadingExponent_bounds (hd : d.digits ≠ 0) (hfinite : d.nearest < infinityMagnitude)
    (h0 : d.nearest ≠ 0) : -324 ≤ d.leadingExponent ∧ d.leadingExponent ≤ 308 := by
  obtain ⟨hlow, hhigh⟩ := value_bounds hd
  have hlarge : (2 : ℚ) ^ 1024 < 10 ^ (309 : Int) := by
    have hnat : (2 : Nat) ^ 1024 < 10 ^ 309 := by decide +kernel
    exact_mod_cast hnat
  have hsmall : (10 : ℚ) ^ (-324 : Int) < d.value := by
    have hnat : 2 * 2 ^ 1074 < 10 ^ 324 := by decide +kernel
    have hpos : 0 < d.value := (zpow_pos (by norm_num) _).trans_le hlow
    have hmul : d.value * (2 * 2 ^ 1074) < d.value * 10 ^ 324 :=
      mul_lt_mul_of_pos_left (by exact_mod_cast hnat) hpos
    rw [zpow_neg, inv_lt_iff_one_lt_mul₀ (zpow_pos (by norm_num) _), zpow_ofNat]
    calc 1 ≤ 2 * (d.value * 2 ^ 1074) := le_value_of_nearest_ne_zero h0
      _ = d.value * (2 * 2 ^ 1074) := mul_left_comm _ _ _
      _ < d.value * 10 ^ 324 := hmul
  constructor
  · have h := (zpow_lt_zpow_iff_right₀ (by norm_num)).1 (hsmall.trans hhigh)
    omega
  · have h := (zpow_lt_zpow_iff_right₀ (by norm_num)).1
      ((hlow.trans_lt (value_lt_of_nearest_lt hfinite)).trans hlarge)
    omega

end Decimal

end ObjectLisp.Number
