import ObjectLisp.Number.Binary

/-!
# Decimals and the shortest decimal of a double

A `Decimal` is a whole number times a power of ten. `Decimal.toFloat` reads one as the nearest
double. In the other direction every finite double is a decimal exactly (`exactDecimal`), and
`shortest` is the one with the fewest digits that still reads back as the same double.

`shortest` cuts the exact decimal to 1, 2, … 17 digits. At each length it tries the two neighbours
of the exact value, the nearer one first, and takes the first that reads back. Seventeen digits
always suffice; the exact decimal stands at the end of the search and reads back too, so the
result is the same double whatever the search finds.
-/

namespace ObjectLisp.Number

/-- The number `digits * 10 ^ exponent`. -/
structure Decimal where
  digits : Nat
  exponent : Int
deriving DecidableEq

namespace Decimal

/-- The magnitude of the double nearest to the decimal. -/
def nearest (d : Decimal) : Nat :=
  nearestMagnitude (d.digits * Nat.pow 10 d.exponent.toNat) (Nat.pow 10 (-d.exponent).toNat)

/-- The double nearest to the decimal, with the given sign. -/
def toFloat (d : Decimal) (negative : Bool) : Float := ofMagnitude negative d.nearest

/-- The number of decimal digits of the whole number in front of the power of ten. -/
def length (d : Decimal) : Nat := (Nat.toDigits 10 d.digits).length

/-- The two decimals of `n` digits between which `d` lies, the nearer one first. A decimal that lies
halfway goes up, and one that has `n` digits or fewer comes first itself. -/
def neighbours (d : Decimal) (n : Nat) : List Decimal :=
  let cut := d.length - n
  let below : Decimal := ⟨d.digits / Nat.pow 10 cut, d.exponent + cut⟩
  let above : Decimal := ⟨below.digits + 1, below.exponent⟩
  if 2 * (d.digits % Nat.pow 10 cut) < Nat.pow 10 cut then [below, above] else [above, below]

/-- The exponent of the first digit, as in scientific notation. -/
def leadingExponent (d : Decimal) : Int := d.exponent + d.length - 1

/-- Read `ddd` or `ddd.ddd` as a decimal; every other text is refused. -/
def ofChars? (cs : List Char) : Option Decimal :=
  let whole := cs.takeWhile Char.isDigit
  match cs.dropWhile Char.isDigit with
  | [] => if whole.isEmpty then none else some ⟨Nat.ofDigitChars 10 whole 0, 0⟩
  | '.' :: fraction =>
    if whole.isEmpty || fraction.isEmpty || !fraction.all Char.isDigit then none
    else some ⟨Nat.ofDigitChars 10 (whole ++ fraction) 0, -(fraction.length : Int)⟩
  | _ => none

/-- The digits without trailing zeros. -/
def significantDigits (d : Decimal) : List Char :=
  ((Nat.toDigits 10 d.digits).reverse.dropWhile (· == '0')).reverse

end Decimal

/-! ## From doubles to decimals -/

/-- The value of a finite magnitude as a decimal: a negative power of two is a power of five over a
power of ten. -/
def exactDecimal (b : Nat) : Decimal :=
  let halvings := 1074 - scale b
  ⟨significand b * Nat.pow 2 (scale b - 1074) * Nat.pow 5 halvings, -(halvings : Int)⟩

/-- The decimal with the fewest digits, at most seventeen, that reads back as magnitude `b`. -/
def shortest (b : Nat) : Decimal :=
  let x := exactDecimal b
  let hit (n : Nat) : Option Decimal := (x.neighbours (n + 1)).find? (·.nearest == b)
  ((List.range 17).findSome? hit).getD x

/-- Read a decimal with an optional minus sign as the nearest double. -/
def ofChars? : List Char → Option Float
  | '-' :: cs => (Decimal.ofChars? cs).map (·.toFloat true)
  | cs => (Decimal.ofChars? cs).map (·.toFloat false)

end ObjectLisp.Number
