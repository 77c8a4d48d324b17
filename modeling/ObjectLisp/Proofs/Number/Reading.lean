import Mathlib
import ObjectLisp.Number.Text
import ObjectLisp.Proofs.Number.Rounding

/-!
# Reading written numbers

The text of a number without an exponent is read as a number equal to the one that was written
(`ofChars?_text`). Between the two stands the decimal that the text denotes: the digits of
`Decimal.significantDigits` with the first of them at `Decimal.leadingExponent` stand for the
decimal they were taken from (`Decimal.value_eq_significantDigits`), wherever the zeros and the
point go (`ofChars?_positionalText`).

The number that is read has the sign and the magnitude of the one that was written, which determine
it (`ofMagnitude_magnitude`). Only `-0` is written without its sign, and it equals `0`.
-/

namespace ObjectLisp.Number

/-! ## Sign and magnitude -/

/-- A double is the one of its sign and magnitude. -/
theorem ofMagnitude_magnitude (x : Float) : ofMagnitude (isNegative x) (magnitude x) = x := by
  have hlt : x.toBits.toNat < 2 ^ 64 := x.toBits.toNat_lt
  have hbits : (if isNegative x then 2 ^ 63 + magnitude x else magnitude x) = x.toBits.toNat := by
    simp only [isNegative, magnitude, Nat.pow_eq, decide_eq_true_eq]
    split <;> omega
  rw [ofMagnitude, Nat.pow_eq, hbits, UInt64.ofNat_toNat, Float.ofBits_toBits]

/-- A finite double equals itself. -/
theorem beq_self_of_isFinite {x : Float} (h : isFinite x = true) : (x == x) = true := by
  refine Float.beq_self_iff.2 ?_
  rintro rfl
  exact absurd h (by decide)

/-- Zero equals the zero of either sign. -/
theorem zero_beq_of_magnitude {x : Float} (h : magnitude x = 0) :
    (ofMagnitude false 0 == x) = true := by
  rw [← ofMagnitude_magnitude x, h]
  cases isNegative x <;> decide

namespace Decimal

/-! ## Digits -/

/-- The digits of a decimal are its significant ones and zeros. -/
theorem toDigits_eq_append (d : Decimal) :
    ∃ zeros, Nat.toDigits 10 d.digits = d.significantDigits ++ List.replicate zeros '0' := by
  set ds := Nat.toDigits 10 d.digits with hds
  have hsplit : ds = d.significantDigits ++ (ds.reverse.takeWhile (· == '0')).reverse := by
    rw [significantDigits, ← List.reverse_append, List.takeWhile_append_dropWhile,
      List.reverse_reverse]
  refine ⟨(ds.reverse.takeWhile (· == '0')).length, ?_⟩
  conv_lhs => rw [hsplit]
  rw [List.append_cancel_left_eq, List.eq_replicate_iff, List.length_reverse]
  refine ⟨rfl, fun c hc => ?_⟩
  have hzero : (ds.reverse.takeWhile (· == '0')).all (· == '0') = true := List.all_takeWhile
  exact beq_iff_eq.1 (List.all_eq_true.1 hzero c (List.mem_reverse.1 hc))

/-- Significant digits are digits. -/
theorem isDigit_of_mem_significantDigits {d : Decimal} {c : Char} (hc : c ∈ d.significantDigits) :
    c.isDigit = true := by
  obtain ⟨zeros, h⟩ := d.toDigits_eq_append
  have hmem : c ∈ Nat.toDigits 10 d.digits := by
    rw [h]
    exact List.mem_append_left _ hc
  exact Nat.isDigit_of_mem_toDigits (by decide) (by decide) hmem

/-- A decimal other than zero has a significant digit. -/
theorem significantDigits_ne_nil {d : Decimal} (hd : d.digits ≠ 0) : d.significantDigits ≠ [] := by
  intro hnil
  obtain ⟨zeros, h⟩ := d.toDigits_eq_append
  have hvalue : Nat.ofDigitChars 10 (Nat.toDigits 10 d.digits) 0 = d.digits :=
    Nat.ofDigitChars_ten_toDigits
  rw [h, hnil, List.nil_append, Nat.ofDigitChars_replicate_zero, Nat.mul_zero] at hvalue
  exact hd hvalue.symm

/-- A decimal from its significant digits and the exponent of the first of them. -/
theorem value_eq_significantDigits (d : Decimal) :
    d.value = (Nat.ofDigitChars 10 d.significantDigits 0 : ℚ)
      * 10 ^ (d.leadingExponent + 1 - d.significantDigits.length) := by
  obtain ⟨zeros, h⟩ := d.toDigits_eq_append
  have hdigits : d.digits = 10 ^ zeros * Nat.ofDigitChars 10 d.significantDigits 0 := by
    rw [← Nat.ofDigitChars_replicate_zero, ← Nat.ofDigitChars_append, ← h,
      Nat.ofDigitChars_ten_toDigits]
  have hlength : d.length = d.significantDigits.length + zeros := by
    rw [length, h, List.length_append, List.length_replicate]
  have hexp : d.leadingExponent + 1 - d.significantDigits.length = d.exponent + zeros := by
    rw [leadingExponent, hlength]
    omega
  rw [value, hexp, hdigits, zpow_add₀ (by norm_num), zpow_natCast]
  push_cast
  ring

/-! ## Reading decimals -/

/-- Digits alone are read as a whole number. -/
theorem ofChars?_digits {ds : List Char} (hds : ∀ c ∈ ds, c.isDigit = true) (hne : ds ≠ []) :
    ofChars? ds = some ⟨Nat.ofDigitChars 10 ds 0, 0⟩ := by
  have htake : ds.takeWhile Char.isDigit = ds := List.takeWhile_eq_self_iff.2 hds
  have hdrop : ds.dropWhile Char.isDigit = [] := List.dropWhile_eq_nil_iff.2 hds
  simp [ofChars?, htake, hdrop, hne]

/-- Digits around a point are read as a decimal with as many places as follow the point. -/
theorem ofChars?_fraction {whole fraction : List Char} (hwhole : ∀ c ∈ whole, c.isDigit = true)
    (hne : whole ≠ []) (hfraction : ∀ c ∈ fraction, c.isDigit = true) (hne' : fraction ≠ []) :
    ofChars? (whole ++ '.' :: fraction)
      = some ⟨Nat.ofDigitChars 10 (whole ++ fraction) 0, -(fraction.length : Int)⟩ := by
  have htake : (whole ++ '.' :: fraction).takeWhile Char.isDigit = whole := by
    rw [List.takeWhile_append_of_pos hwhole]
    simp
  have hdrop : (whole ++ '.' :: fraction).dropWhile Char.isDigit = '.' :: fraction := by
    rw [List.dropWhile_append_of_pos hwhole]
    simp
  have hall : fraction.all Char.isDigit = true := List.all_eq_true.2 hfraction
  simp only [ofChars?, htake, hdrop]
  simp [hne, hne', hall]

/-- Digits, with or without a point between two of them, and the decimal they stand for. -/
inductive Numeral : List Char → Decimal → Prop
  | whole {ds : List Char} (hds : ∀ c ∈ ds, c.isDigit = true) (hne : ds ≠ []) :
      Numeral ds ⟨Nat.ofDigitChars 10 ds 0, 0⟩
  | fraction {ds fs : List Char} (hds : ∀ c ∈ ds, c.isDigit = true) (hne : ds ≠ [])
      (hfs : ∀ c ∈ fs, c.isDigit = true) (hne' : fs ≠ []) :
      Numeral (ds ++ '.' :: fs) ⟨Nat.ofDigitChars 10 (ds ++ fs) 0, -(fs.length : Int)⟩

/-- What reads as a decimal is a numeral. -/
theorem numeral_of_ofChars? {cs : List Char} {d : Decimal} (h : ofChars? cs = some d) :
    Numeral cs d := by
  have hsplit : cs.takeWhile Char.isDigit ++ cs.dropWhile Char.isDigit = cs :=
    List.takeWhile_append_dropWhile
  have hdigit : ∀ c ∈ cs.takeWhile Char.isDigit, c.isDigit = true :=
    List.all_eq_true.1 List.all_takeWhile
  simp only [ofChars?] at h
  generalize cs.takeWhile Char.isDigit = whole at *
  split at h
  · next hdrop =>
    rw [hdrop, List.append_nil] at hsplit
    subst hsplit
    split at h
    · nomatch h
    · next hne =>
      cases h
      exact .whole hdigit (by simpa using hne)
  · next fraction hdrop =>
    rw [hdrop] at hsplit
    subst hsplit
    split at h
    · nomatch h
    · next hne =>
      cases h
      simp only [Bool.or_eq_true, Bool.not_eq_true', List.isEmpty_iff, not_or, Bool.not_eq_false,
        List.all_eq_true] at hne
      exact .fraction hdigit hne.1.1 hne.2 hne.1.2
  · nomatch h

/-- Exactly the numerals read as decimals. -/
theorem ofChars?_eq_some_iff {cs : List Char} {d : Decimal} :
    ofChars? cs = some d ↔ Numeral cs d := by
  refine ⟨numeral_of_ofChars?, fun h => ?_⟩
  cases h with
  | whole hds hne => exact ofChars?_digits hds hne
  | fraction hds hne hfs hne' => exact ofChars?_fraction hds hne hfs hne'

/-- A numeral begins with a digit and holds digits and points only. -/
theorem Numeral.chars {cs : List Char} {d : Decimal} (h : Numeral cs d) :
    (∃ c rest, cs = c :: rest ∧ c.isDigit = true) ∧ ∀ c ∈ cs, c.isDigit = true ∨ c = '.' := by
  cases h with
  | whole hds hne =>
    obtain ⟨c, rest, rfl⟩ := List.exists_cons_of_ne_nil hne
    exact ⟨⟨c, rest, rfl, hds c List.mem_cons_self⟩, fun a ha => .inl (hds a ha)⟩
  | fraction hds hne hfs _ =>
    obtain ⟨c, rest, rfl⟩ := List.exists_cons_of_ne_nil hne
    refine ⟨⟨c, _, rfl, hds c List.mem_cons_self⟩, fun a ha => ?_⟩
    rcases List.mem_append.1 ha with ha | ha
    · exact .inl (hds a ha)
    · rcases List.mem_cons.1 ha with rfl | ha
      · exact .inr rfl
      · exact .inl (hfs a ha)

end Decimal

/-! ## Reading positional text -/

/-- Digits with zeros before or after them are digits. -/
theorem isDigit_of_mem_zeros {ds : List Char} (hds : ∀ c ∈ ds, c.isDigit = true) (n : Nat)
    {c : Char} (hc : c ∈ List.replicate n '0' ∨ c ∈ ds) : c.isDigit = true := by
  rcases hc with hc | hc
  · rw [List.eq_of_mem_replicate hc]
    decide
  · exact hds c hc

/-- Positional text is read as the decimal that its digits and its exponent stand for. -/
theorem ofChars?_positionalText {ds : List Char} (hds : ∀ c ∈ ds, c.isDigit = true) (hne : ds ≠ [])
    (e : Int) :
    ∃ d, Decimal.ofChars? (positionalText ds e).toList = some d
      ∧ d.value = (Nat.ofDigitChars 10 ds 0 : ℚ) * 10 ^ (e + 1 - ds.length) := by
  by_cases he : e < 0
  · -- zeros stand between the point and the first digit
    have htext : (positionalText ds e).toList
        = ['0'] ++ '.' :: (List.replicate (-e - 1).toNat '0' ++ ds) := by
      simp [positionalText, he]
    have hfraction : ∀ c ∈ List.replicate (-e - 1).toNat '0' ++ ds, c.isDigit = true :=
      fun c hc => isDigit_of_mem_zeros hds _ (List.mem_append.1 hc)
    refine ⟨⟨Nat.ofDigitChars 10 ds 0, e + 1 - ds.length⟩, ?_, rfl⟩
    have hzero : ∀ c ∈ ['0'], c.isDigit = true := List.forall_mem_singleton.2 rfl
    rw [htext, Decimal.ofChars?_fraction hzero (List.cons_ne_nil _ _) hfraction (by simp [hne])]
    simp only [Option.some.injEq, Decimal.mk.injEq]
    constructor
    · simp [Nat.ofDigitChars_append, Nat.ofDigitChars_cons]
    · simp only [List.length_append, List.length_replicate]
      omega
  · by_cases hlen : ds.length ≤ e.toNat + 1
    · -- zeros stand after the last digit
      have htext : (positionalText ds e).toList
          = ds ++ List.replicate (e.toNat + 1 - ds.length) '0' := by
        simp [positionalText, he, hlen]
      have hwhole : ∀ c ∈ ds ++ List.replicate (e.toNat + 1 - ds.length) '0', c.isDigit = true :=
        fun c hc => isDigit_of_mem_zeros hds _ (List.mem_append.1 hc).symm
      have hexp : e + 1 - ds.length = ((e.toNat + 1 - ds.length : Nat) : Int) := by omega
      refine ⟨_, by rw [htext, Decimal.ofChars?_digits hwhole (by simp [hne])], ?_⟩
      rw [Decimal.value, Nat.ofDigitChars_append, Nat.ofDigitChars_replicate_zero, hexp,
        zpow_natCast]
      push_cast
      ring
    · -- the point stands among the digits
      have htext : (positionalText ds e).toList
          = ds.take (e.toNat + 1) ++ '.' :: ds.drop (e.toNat + 1) := by
        simp [positionalText, he, hlen]
      have hdrop : ds.drop (e.toNat + 1) ≠ [] := by
        rw [Ne, List.drop_eq_nil_iff]
        omega
      refine ⟨⟨Nat.ofDigitChars 10 ds 0, e + 1 - ds.length⟩, ?_, rfl⟩
      rw [htext, Decimal.ofChars?_fraction (fun c hc => hds c (List.mem_of_mem_take hc))
        (by simp [hne]) (fun c hc => hds c (List.mem_of_mem_drop hc)) hdrop, List.take_append_drop]
      simp only [Option.some.injEq, Decimal.mk.injEq, List.length_drop, true_and]
      omega

/-! ## Reading the text of a number -/

/-- Whether a number is zero, or finite with an exponent that needs no exponent notation. -/
def isPositional (x : Float) : Bool :=
  let e := (shortest (magnitude x)).leadingExponent
  magnitude x == 0 || (isFinite x && -7 < e && e < 21)

/-- A decimal that stands for zero is read as zero. -/
theorem nearest_eq_zero {d : Decimal} (h : d.digits = 0) : d.nearest = 0 := by
  refine nearestMagnitude_eq_self (Nat.zero_le _) (Nat.pow_pos (by decide)) ?_
  rw [h, Nat.zero_mul, Nat.zero_mul, significand, Nat.zero_sub, Nat.zero_mul, Nat.zero_mul]

/-- The positional text of a magnitude is read as this magnitude. -/
theorem ofChars?_magnitudeText {b : Nat} (hb : b ≤ infinityMagnitude) (h0 : b ≠ 0) :
    ∃ d, Decimal.ofChars? (positionalText (shortest b).significantDigits
        (shortest b).leadingExponent).toList = some d ∧ d.nearest = b := by
  have hdigits : (shortest b).digits ≠ 0 := by
    intro hzero
    exact h0 ((nearest_shortest hb).symm.trans (nearest_eq_zero hzero))
  obtain ⟨d, hread, hvalue⟩ := ofChars?_positionalText
    (fun _ => Decimal.isDigit_of_mem_significantDigits) (Decimal.significantDigits_ne_nil hdigits)
    (shortest b).leadingExponent
  refine ⟨d, hread, ?_⟩
  rw [← Decimal.value_eq_significantDigits] at hvalue
  rw [Decimal.nearest_congr hvalue, nearest_shortest hb]

/-- A decimal without a sign is read as a positive number, and one after a minus sign as a negative
number. -/
theorem ofChars?_signed {cs : List Char} {d : Decimal} (h : Decimal.ofChars? cs = some d)
    (negative : Bool) :
    ofChars? ((if negative then "-" else "").toList ++ cs) = some (d.toFloat negative) := by
  obtain ⟨⟨c, rest, rfl, hc⟩, -⟩ := (Decimal.numeral_of_ofChars? h).chars
  cases negative with
  | true => simp [ofChars?, h]
  | false =>
    have hminus : c ≠ '-' := by
      rintro rfl
      simp at hc
    simp [ofChars?, h, hminus]

/-- The text of a number that needs no exponent is read as an equal number. -/
theorem ofChars?_text {x : Float} (h : isPositional x = true) :
    ∃ y, ofChars? (text x).toList = some y ∧ (y == x) = true := by
  by_cases h0 : magnitude x = 0
  · have htext : text x = "0" := by
      simp [text, Style.write, printed, h0, infinityMagnitude]
    refine ⟨ofMagnitude false 0, ?_, zero_beq_of_magnitude h0⟩
    rw [htext]
    show some (ofMagnitude false (⟨0, 0⟩ : Decimal).nearest) = _
    rw [nearest_eq_zero rfl]
  · simp only [isPositional, Bool.or_eq_true, beq_iff_eq, h0, false_or, Bool.and_eq_true,
      decide_eq_true_eq] at h
    obtain ⟨⟨hfinite, hlow⟩, hhigh⟩ := h
    have hlt : magnitude x < infinityMagnitude := of_decide_eq_true hfinite
    have htext : (text x).toList = (if isNegative x then "-" else "").toList
        ++ (positionalText (shortest (magnitude x)).significantDigits
          (shortest (magnitude x)).leadingExponent).toList := by
      simp [text, Style.write, Style.magnitudeText, printed, h0, hlow, hhigh, hlt.ne, hlt.not_gt]
    obtain ⟨d, hread, hnearest⟩ := ofChars?_magnitudeText hlt.le h0
    refine ⟨x, ?_, beq_self_of_isFinite hfinite⟩
    rw [htext, ofChars?_signed hread, Decimal.toFloat, hnearest, ofMagnitude_magnitude]

end ObjectLisp.Number
