import Mathlib
import ObjectLisp.Proofs.Number.Rounding

/-!
# Doubles and their bit patterns

The sign and the magnitude of a double are parts of its bit pattern, and they tell what comparisons
say about it: which doubles are undefined (`isNaN_iff`) and which are below zero (`lt_zero_iff`).
Conversely the double of a magnitude has this magnitude (`magnitude_ofMagnitude`), as long as it is
not one of those that are all the same undefined number.
-/

namespace ObjectLisp.Number

open Float.Model

/-! ## Fields of a bit pattern -/

/-- The fraction is in the lowest 52 bits. -/
theorem toNat_unpackMantissa (b : UInt64) :
    (@UnpackedFloat.unpackMantissa .binary64 b.toBitVec).toNat = b.toNat % 2 ^ 52 := by
  rw [UnpackedFloat.unpackMantissa_def]
  simp

/-- The exponent is in the 11 bits above them. -/
theorem toNat_unpackExponent (b : UInt64) :
    (@UnpackedFloat.unpackExponent .binary64 b.toBitVec).toNat
      = b.toNat / 2 ^ 52 % 2 ^ 11 := by
  rw [UnpackedFloat.unpackExponent_def]
  simp [Nat.shiftRight_eq_div_pow]

/-- The sign is in the highest bit. -/
theorem toNat_unpackSign (b : UInt64) :
    (@UnpackedFloat.unpackSign .binary64 b.toBitVec).toNat = b.toNat / 2 ^ 63 % 2 := by
  rw [UnpackedFloat.unpackSign_def]
  simp [Nat.shiftRight_eq_div_pow]

/-- The exponent has all ones when it is 2047. -/
theorem unpackExponent_eq_ones_iff (b : UInt64) :
    @UnpackedFloat.unpackExponent .binary64 b.toBitVec = -1#11
      ↔ b.toNat / 2 ^ 52 % 2 ^ 11 = 2047 := by
  rw [← toNat_unpackExponent, ← BitVec.toNat_inj]
  rfl

/-- The fraction is zero when its bits are. -/
theorem unpackMantissa_eq_zero_iff (b : UInt64) :
    @UnpackedFloat.unpackMantissa .binary64 b.toBitVec = 0#52
      ↔ b.toNat % 2 ^ 52 = 0 := by
  rw [← toNat_unpackMantissa, ← BitVec.toNat_inj]
  rfl

/-- The exponent is zero when its bits are. -/
theorem unpackExponent_eq_zero_iff (b : UInt64) :
    @UnpackedFloat.unpackExponent .binary64 b.toBitVec = 0#11
      ↔ b.toNat / 2 ^ 52 % 2 ^ 11 = 0 := by
  rw [← toNat_unpackExponent, ← BitVec.toNat_inj]
  rfl

/-! ## Undefined numbers -/

/-- The bit patterns above that of infinity are those of undefined numbers. -/
theorem isNaNBits_iff (b : UInt64) :
    @UnpackedFloat.isNaNBits .binary64 b.toBitVec = true
      ↔ infinityMagnitude < b.toNat % 2 ^ 63 := by
  have hlt : b.toNat < 2 ^ 64 := b.toNat_lt
  rw [UnpackedFloat.isNaNBits, decide_eq_true_eq, unpackExponent_eq_ones_iff, ne_eq,
    unpackMantissa_eq_zero_iff, infinityMagnitude, Nat.pow_eq]
  omega

/-- A bit pattern is that of its double, unless it is that of an undefined number. -/
theorem toBits_ofBits {b : UInt64} (h : b.toNat % 2 ^ 63 ≤ infinityMagnitude) :
    (Float.ofBits b).toBits = b := by
  have hbits : ¬ @UnpackedFloat.isNaNBits .binary64 b.toBitVec = true := by
    rw [isNaNBits_iff]
    omega
  have hpack := @UnpackedFloat.pack_unpack .binary64 b.toBitVec (by decide)
  rw [if_neg hbits] at hpack
  exact UInt64.toBitVec_inj.1 hpack

/-- The undefined number is the one above infinity. -/
theorem isNaN_iff {x : Float} : x.isNaN = true ↔ infinityMagnitude < magnitude x := by
  rw [Float.isNaN_eq_decide_eq_nan, decide_eq_true_eq]
  constructor
  · rintro rfl
    decide +kernel
  · intro h
    have hbits := (isNaNBits_iff x.toBits).2 h
    rw [UnpackedFloat.isNaNBits, decide_eq_true_eq] at hbits
    have hvalid := x.toModel.valid.eq_packedNaN hbits.1 hbits.2
    rw [← Float.toBits_inj, ← UInt64.toBitVec_inj]
    exact hvalid

/-- The double of a magnitude has this magnitude. -/
theorem magnitude_ofMagnitude {b : Nat} (hb : b ≤ infinityMagnitude) (negative : Bool) :
    magnitude (ofMagnitude negative b) = b := by
  have hsmall : infinityMagnitude < 2 ^ 63 := by decide
  have hbits : (UInt64.ofNat (if negative then 2 ^ 63 + b else b)).toNat % 2 ^ 63 = b := by
    rw [UInt64.toNat_ofNat']
    split <;> omega
  have hround := toBits_ofBits (b := UInt64.ofNat (if negative then 2 ^ 63 + b else b))
    (by rw [hbits]; exact hb)
  rw [ofMagnitude, magnitude, Nat.pow_eq, hround, hbits]

/-! ## Numbers below zero -/

/-- The sign is negative from 2 to the 63rd on. -/
theorem ofBitVec_unpackSign (b : UInt64) :
    UnpackedFloat.Sign.ofBitVec (@UnpackedFloat.unpackSign .binary64 b.toBitVec)
      = if 2 ^ 63 ≤ b.toNat then .negative else .positive := by
  have hlt : b.toNat < 2 ^ 64 := b.toNat_lt
  have hsign : @UnpackedFloat.unpackSign .binary64 b.toBitVec = 0#1 ↔ ¬ 2 ^ 63 ≤ b.toNat := by
    rw [← BitVec.toNat_inj, toNat_unpackSign, BitVec.toNat_ofNat]
    omega
  rw [UnpackedFloat.Sign.ofBitVec]
  by_cases h : 2 ^ 63 ≤ b.toNat
  · rw [if_pos h, if_neg (fun h0 => hsign.1 h0 h)]
  · rw [if_neg h, if_pos (hsign.2 h)]

/-- A finite number other than zero is taken apart into its sign, a significand and an exponent. -/
theorem exists_unpack_eq_finite {x : Float} (hfinite : magnitude x < infinityMagnitude)
    (hzero : magnitude x ≠ 0) :
    ∃ m e hm, x.toModel.unpack
      = .finite (if isNegative x then .negative else .positive) m e hm := by
  have hlt : x.toBits.toNat < 2 ^ 64 := x.toBits.toNat_lt
  have hones : ¬ @UnpackedFloat.unpackExponent .binary64 x.toBits.toBitVec = -1#11 := by
    rw [unpackExponent_eq_ones_iff]
    simp only [magnitude, infinityMagnitude, Nat.pow_eq] at hfinite
    omega
  have hsign : UnpackedFloat.Sign.ofBitVec (@UnpackedFloat.unpackSign .binary64 x.toBits.toBitVec)
      = if isNegative x then .negative else .positive := by
    rw [ofBitVec_unpackSign]
    simp only [isNegative, Nat.pow_eq, decide_eq_true_eq]
  have hunpack : x.toModel.unpack = UnpackedFloat.unpack .binary64 x.toBits.toBitVec := rfl
  rw [hunpack, UnpackedFloat.unpack, hsign]
  simp only [if_neg hones]
  -- Subnormal numbers have their fraction alone, and all others a leading one before it.
  by_cases hexponent : @UnpackedFloat.unpackExponent .binary64 x.toBits.toBitVec = 0#11
  · have hmantissa : ¬ @UnpackedFloat.unpackMantissa .binary64 x.toBits.toBitVec = 0#52 := by
      rw [unpackMantissa_eq_zero_iff]
      rw [unpackExponent_eq_zero_iff] at hexponent
      simp only [magnitude, Nat.pow_eq] at hzero
      omega
    have hpos : 0 < (@UnpackedFloat.unpackMantissa .binary64 x.toBits.toBitVec).toNat :=
      Nat.pos_of_ne_zero fun h => hmantissa (BitVec.eq_of_toNat_eq h)
    rw [if_pos hexponent, dif_neg hmantissa]
    exact ⟨_, _, hpos, rfl⟩
  · have hpos : 0 < (1#1 ++ @UnpackedFloat.unpackMantissa .binary64 x.toBits.toBitVec).toNat := by
      rw [BitVec.toNat_append]
      exact Nat.lt_of_lt_of_le (by decide) Nat.left_le_or
    rw [if_neg hexponent]
    exact ⟨_, _, hpos, rfl⟩

/-- A finite number other than zero is below zero exactly when it has the sign. -/
theorem lt_zero_iff {x : Float} (hfinite : magnitude x < infinityMagnitude)
    (hzero : magnitude x ≠ 0) : x < 0 ↔ isNegative x = true := by
  obtain ⟨m, e, hm, hunpack⟩ := exists_unpack_eq_finite hfinite hzero
  have hlt : x < 0 ↔ (x.toModel.unpack.compare (.zero .positive) == some .lt) = true := by
    have hzero' : (0 : Float).toModel.unpack = .zero .positive := rfl
    rw [← hzero']
    exact decide_eq_true_iff
  rw [hlt, hunpack]
  cases isNegative x with
  | true => exact ⟨fun _ => rfl, fun _ => rfl⟩
  | false => exact ⟨nofun, nofun⟩

/-! ## Whole numbers -/

/-- Rounding goes up by one at the most. -/
theorem roundHalfEven_le (num den : Nat) : roundHalfEven num den ≤ num / den + 1 := by
  unfold roundHalfEven
  dsimp only
  split
  · omega
  · split <;> omega

/-- A whole number with few enough bits, counted in units of the smallest double, is rounded to a
finite double. -/
theorem nearestMagnitude_lt {n units : Nat} (h : n * 2 ^ 1074 = units)
    (hlog : units.log2 < 64 + 1074) : nearestMagnitude n 1 < infinityMagnitude := by
  have hquotient : units / 2 ^ (units.log2 - 52) < 2 ^ 53 := by
    refine Nat.div_lt_of_lt_mul ?_
    calc units < 2 ^ (units.log2 + 1) := Nat.lt_log2_self
      _ ≤ 2 ^ (units.log2 - 52 + 53) := Nat.pow_le_pow_right (by decide) (by omega)
      _ = 2 ^ (units.log2 - 52) * 2 ^ 53 := Nat.pow_add ..
  have hround := roundHalfEven_le units (2 ^ (units.log2 - 52))
  simp only [nearestMagnitude, infinityMagnitude, Nat.pow_eq, h, Nat.div_one, Nat.one_mul]
  clear h
  omega

/-- A number of 64 bits moved up by some bits has that many more. -/
theorem log2_mul_two_pow_lt {n : Nat} (hn : n < 2 ^ 64) (k : Nat) :
    (n * 2 ^ k).log2 < 64 + k := by
  by_cases h0 : n * 2 ^ k = 0
  · rw [h0, Nat.log2_zero]
    omega
  · rw [Nat.log2_lt h0, Nat.pow_add]
    exact (Nat.mul_lt_mul_right (Nat.two_pow_pos k)).2 hn

/-- A whole number of 64 bits is read as a finite double. -/
theorem isFinite_toFloat {n : Nat} (hn : n < 2 ^ 64) :
    isFinite ((⟨n, 0⟩ : Decimal).toFloat false) = true := by
  have heq : (⟨n, 0⟩ : Decimal).nearest = nearestMagnitude n 1 :=
    congrArg (nearestMagnitude · 1) (Nat.mul_one n)
  have hnearest : (⟨n, 0⟩ : Decimal).nearest < infinityMagnitude := by
    rw [heq]
    exact nearestMagnitude_lt rfl (log2_mul_two_pow_lt hn 1074)
  rw [isFinite, decide_eq_true_eq, Decimal.toFloat, magnitude_ofMagnitude hnearest.le]
  exact hnearest

end ObjectLisp.Number
