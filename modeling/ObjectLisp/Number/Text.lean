import ObjectLisp.Number.Decimal

/-!
# Number text

A number is written with its shortest digits, either positionally (`0.00125`) or with an exponent
(`1.25e-7`). A `Style` holds what differs between the two texts in use:

* `Number.text` is what programs print: exponents from `-6` to `20` are positional, and zero has
  no sign.
* `Number.plainText` names a number in messages about the source: always positional, with the sign
  of zero.
-/

namespace ObjectLisp.Number

/-- The choices that a number's text leaves open. -/
structure Style where
  /-- The text of positive infinity. -/
  infinity : String
  /-- Whether negative zero keeps its sign. -/
  signedZero : Bool
  /-- Whether a number whose first digit has this exponent is written without an exponent. -/
  positional : Int → Bool

/-- Digits written out in full, the first of them at `10 ^ exponent`. -/
def positionalText (digits : List Char) (exponent : Int) : String :=
  if exponent < 0 then
    "0." ++ String.ofList (List.replicate (-exponent - 1).toNat '0' ++ digits)
  else
    let whole := exponent.toNat + 1
    if digits.length ≤ whole then
      String.ofList (digits ++ List.replicate (whole - digits.length) '0')
    else
      String.ofList (digits.take whole) ++ "." ++ String.ofList (digits.drop whole)

/-- One digit before the point, and a signed exponent after the rest. -/
def scientificText (digits : List Char) (exponent : Int) : String :=
  let fraction := digits.drop 1
  String.ofList (digits.take 1)
    ++ (if fraction.isEmpty then "" else "." ++ String.ofList fraction)
    ++ (if exponent < 0 then "e-" else "e+") ++ toString exponent.natAbs

/-- The text of the finite, non-zero number of magnitude `b`, without its sign. -/
def Style.magnitudeText (style : Style) (b : Nat) : String :=
  let d := shortest b
  let write := if style.positional d.leadingExponent then positionalText else scientificText
  write d.significantDigits d.leadingExponent

/-- The text of a number in the given style. -/
def Style.write (style : Style) (x : Float) : String :=
  let b := magnitude x
  let sign := if isNegative x then "-" else ""
  if infinityMagnitude < b then "NaN"
  else if b = infinityMagnitude then sign ++ style.infinity
  else if b = 0 then (if style.signedZero then sign else "") ++ "0"
  else sign ++ style.magnitudeText b

/-- How programs print numbers. -/
def printed : Style where
  infinity := "Infinity"
  signedZero := false
  positional e := -7 < e && e < 21

/-- How messages name the numbers of a source. -/
def plain : Style where
  infinity := "inf"
  signedZero := true
  positional _ := true

/-- The text of a number as programs print it. -/
def text (x : Float) : String := printed.write x

/-- The text of a number in messages about the source. -/
def plainText (x : Float) : String := plain.write x

end ObjectLisp.Number
