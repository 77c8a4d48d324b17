/-!
# Double-precision numbers as multiples of the smallest one

Every finite double is a whole multiple of `2⁻¹⁰⁷⁴`, the smallest positive one, so questions about
doubles become questions about natural numbers. The *magnitude* of a double is its bit pattern
without the sign bit. Magnitudes below `infinityMagnitude` are the finite values in increasing
order, and the value of magnitude `b` is `significand b * 2 ^ scale b` units.

`nearestMagnitude` rounds an exact ratio to a double. Neighbouring doubles have neighbouring
magnitudes, also across a power of two, so the scale and the rounded significand are added without a
carry case.
-/

namespace ObjectLisp.Number

-- Powers are written `Nat.pow`, since `^` stands for another instance where monoids are known.

/-! ## Magnitudes -/

/-- The magnitude of infinity; larger magnitudes are not numbers. -/
def infinityMagnitude : Nat := 2047 * Nat.pow 2 52

/-- The bit pattern without its sign. -/
def magnitude (x : Float) : Nat := x.toBits.toNat % Nat.pow 2 63

/-- Whether the sign bit is set, which tells `-0` from `0`. -/
def isNegative (x : Float) : Bool := Nat.pow 2 63 ≤ x.toBits.toNat

/-- Whether the number is neither infinite nor undefined. -/
def isFinite (x : Float) : Bool := magnitude x < infinityMagnitude

/-- The double of the given sign and magnitude. -/
def ofMagnitude (negative : Bool) (b : Nat) : Float :=
  Float.ofBits (UInt64.ofNat (if negative then Nat.pow 2 63 + b else b))

/-- The power of two, in units of the smallest positive double, that the significand counts. -/
def scale (b : Nat) : Nat := b / Nat.pow 2 52 - 1

/-- The whole number that a finite magnitude multiplies by `2 ^ scale b`. -/
def significand (b : Nat) : Nat := b - scale b * Nat.pow 2 52

/-! ## Rounding -/

/-- The whole number nearest to `num / den`; of two equally near ones, the even one. -/
def roundHalfEven (num den : Nat) : Nat :=
  let quotient := num / den
  let remainder := num % den
  if 2 * remainder < den then quotient
  else if den < 2 * remainder then quotient + 1
  else quotient + quotient % 2

/-- The magnitude of the double nearest to `num / den`, or of infinity when the ratio is too large.

The ratio is first counted in units of the smallest positive double. It keeps 53 significant bits,
or all its whole units when it has fewer. -/
def nearestMagnitude (num den : Nat) : Nat :=
  let units := num * Nat.pow 2 1074
  let shift := (units / den).log2 - 52
  min (shift * Nat.pow 2 52 + roundHalfEven units (den * Nat.pow 2 shift)) infinityMagnitude

end ObjectLisp.Number
