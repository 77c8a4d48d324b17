import Mathlib
import ObjectLisp.Proofs.Number.Bits
import ObjectLisp.Proofs.Number.Range
import ObjectLisp.Proofs.Number.Reading

/-!
# Printed numbers

Two notations for decimal numbers, each with the number that it stands for. `Positional` is `ddd` or
`ddd.ddd`, and `Scientific` is one digit other than zero, perhaps a fraction, and an exponent with
its sign. Neither has a zero that could be left out. A text has one notation and stands for one
number (`Denotes.unique`).

A finite number other than zero is printed (`PrintedAs`) with the digits of its shortest decimal,
laid out by the exponent of the first of them (`LaidOut`). However they are laid out, the text
stands for that decimal (`LaidOut.positional`, `LaidOut.scientific`), and the decimal is read as the
number itself. So numbers with the same text are equal or undefined (`text_eq_text_iff`).
-/

namespace ObjectLisp.Number

/-! ## Notations -/

/-- The digits of a whole number, with no zero in front that could be left out. -/
structure IsWhole (ds : List Char) : Prop where
  digit : ∀ c ∈ ds, c.isDigit = true
  ne_nil : ds ≠ []
  first : ds = ['0'] ∨ ds.head? ≠ some '0'

/-- The digits after a point, with no zero at the end that could be left out. -/
structure IsFraction (fs : List Char) : Prop where
  digit : ∀ c ∈ fs, c.isDigit = true
  ne_nil : fs ≠ []
  last : fs.getLast? ≠ some '0'

/-- Positional notation, and the number it stands for. -/
inductive Positional : List Char → ℚ → Prop
  | whole {ds : List Char} (hds : IsWhole ds) : Positional ds (Nat.ofDigitChars 10 ds 0)
  | fraction {ds fs : List Char} (hds : IsWhole ds) (hfs : IsFraction fs) :
      Positional (ds ++ '.' :: fs) (Nat.ofDigitChars 10 (ds ++ fs) 0 / 10 ^ fs.length)

/-- The number of an exponent's digits and sign. -/
def exponentValue (negative : Bool) (es : List Char) : Int :=
  if negative then -Nat.ofDigitChars 10 es 0 else Nat.ofDigitChars 10 es 0

/-- Scientific notation, and the number it stands for: one digit, which is not zero, stands before
the point, and the exponent has a sign. -/
inductive Scientific : List Char → ℚ → Prop
  | mk {c : Char} {tail es : List Char} {q : ℚ} {negative : Bool} (hq : Positional (c :: tail) q)
      (hc : c ≠ '0') (htail : ∀ t ∈ tail.head?, t = '.') (hes : IsWhole es) :
      Scientific (c :: tail ++ 'e' :: (if negative then '-' else '+') :: es)
        (q * 10 ^ exponentValue negative es)

/-- A text in one of the notations, and the number it stands for. -/
def Denotes (cs : List Char) (q : ℚ) : Prop := Positional cs q ∨ Scientific cs q

variable {cs ds : List Char} {e : Int} {q r : ℚ}

/-- Positional notation is read as a decimal that stands for the same number. -/
theorem Positional.exists_numeral (h : Positional cs q) :
    ∃ d : Decimal, Decimal.Numeral cs d ∧ d.value = q := by
  cases h with
  | whole hds =>
    refine ⟨_, .whole hds.digit hds.ne_nil, ?_⟩
    rw [Decimal.value, zpow_zero, mul_one]
  | fraction hds hfs =>
    refine ⟨_, .fraction hds.digit hds.ne_nil hfs.digit hfs.ne_nil, ?_⟩
    rw [Decimal.value, zpow_neg, zpow_natCast, div_eq_mul_inv]

/-- A text in positional notation denotes one number. -/
theorem Positional.unique (h : Positional cs q) (h' : Positional cs r) : q = r := by
  obtain ⟨d, hd, rfl⟩ := h.exists_numeral
  obtain ⟨d', hd', rfl⟩ := h'.exists_numeral
  have hread := Decimal.ofChars?_eq_some_iff.2 hd
  rw [Decimal.ofChars?_eq_some_iff.2 hd'] at hread
  rw [Option.some.inj hread]

/-- Positional notation begins with a digit and has no exponent. -/
theorem Positional.chars (h : Positional cs q) :
    (∃ c rest, cs = c :: rest ∧ c.isDigit = true) ∧ ∀ c ∈ cs, c.isDigit = true ∨ c = '.' := by
  obtain ⟨d, hd, -⟩ := h.exists_numeral
  exact hd.chars

/-- There is no exponent in positional notation. -/
theorem Positional.not_mem_e (h : Positional cs q) : 'e' ∉ cs := by
  intro hmem
  rcases h.chars.2 'e' hmem with h | h <;> simp at h

/-- There is one in scientific notation. -/
theorem Scientific.mem_e (h : Scientific cs q) : 'e' ∈ cs := by
  cases h
  exact List.mem_append_right _ List.mem_cons_self

/-- A text is cut at its first `e` in one way. -/
theorem append_e_inj {cs' rest rest' : List Char} (h : 'e' ∉ cs) (h' : 'e' ∉ cs')
    (heq : cs ++ 'e' :: rest = cs' ++ 'e' :: rest') : cs = cs' ∧ rest = rest' := by
  have hspan {cs rest : List Char} (h : 'e' ∉ cs) :
      (cs ++ 'e' :: rest).takeWhile (· != 'e') = cs := by
    rw [List.takeWhile_append_of_pos]
    · simp
    · intro c hc
      simpa using ne_of_mem_of_not_mem hc h
  have hcs : cs = cs' := by rw [← hspan h, heq, hspan h']
  subst hcs
  exact ⟨rfl, (List.cons.inj (List.append_cancel_left heq)).2⟩

/-- A text in scientific notation denotes one number. -/
theorem Scientific.unique (h : Scientific cs q) (h' : Scientific cs r) : q = r := by
  cases h with
  | @mk c tail es m negative hm =>
    generalize hcs : c :: tail ++ 'e' :: (if negative then '-' else '+') :: es = cs at h'
    cases h' with
    | @mk c' tail' es' m' negative' hm' =>
      obtain ⟨hmantissa, hexponent⟩ := append_e_inj hm.not_mem_e hm'.not_mem_e hcs
      obtain ⟨hsign, rfl⟩ := List.cons.inj hexponent
      have hnegative : negative = negative' := by
        cases negative <;> cases negative' <;> simp_all
      rw [← hmantissa] at hm'
      rw [hm.unique hm', hnegative]

/-- A text has one notation. -/
theorem Positional.not_scientific (h : Positional cs q) : ¬ Scientific cs r :=
  fun h' => h.not_mem_e h'.mem_e

/-- A text stands for one number. -/
theorem Denotes.unique (h : Denotes cs q) (h' : Denotes cs r) : q = r := by
  rcases h with h | h <;> rcases h' with h' | h'
  · exact h.unique h'
  · exact absurd h' h.not_scientific
  · exact absurd h h'.not_scientific
  · exact h.unique h'

/-! ## Digits and where they go -/

/-- Digits of which neither the first nor the last is zero. -/
structure IsSignificant (ds : List Char) : Prop where
  digit : ∀ c ∈ ds, c.isDigit = true
  ne_nil : ds ≠ []
  first : ds.head? ≠ some '0'
  last : ds.getLast? ≠ some '0'

/-- The number of some digits, the first of them at `10 ^ e`. -/
def digitsValue (ds : List Char) (e : Int) : ℚ :=
  Nat.ofDigitChars 10 ds 0 * 10 ^ (e + 1 - ds.length)

/-- How digits, the first of them at `10 ^ e`, are laid out. What is counted out, zeros or digits
before the point, is as many as the difference says, and the point has digits on both sides. -/
inductive LaidOut (ds : List Char) (e : Int) : List Char → Prop
  | whole {zeros : Nat} (hzeros : (zeros : Int) = e + 1 - ds.length) (he : e < 21) :
      LaidOut ds e (ds ++ List.replicate zeros '0')
  | point {whole fraction : List Char} (hds : whole ++ fraction = ds)
      (hwhole : (whole.length : Int) = e + 1) (hne : whole ≠ []) (hne' : fraction ≠ [])
      (he : e < 21) : LaidOut ds e (whole ++ '.' :: fraction)
  | below {zeros : Nat} (hzeros : (zeros : Int) = -(e + 1)) (he : -7 < e) :
      LaidOut ds e ('0' :: '.' :: (List.replicate zeros '0' ++ ds))
  | exponent {first : Char} {rest : List Char} (hds : first :: rest = ds) (he : e ≤ -7 ∨ 21 ≤ e) :
      LaidOut ds e (first :: (if rest = [] then [] else '.' :: rest)
        ++ 'e' :: (if e < 0 then '-' else '+') :: Nat.toDigits 10 e.natAbs)

/-- Digits are laid out without an exponent from `10 ^ -6` to `10 ^ 20`, and with one elsewhere. -/
theorem laidOut_text (hne : ds ≠ []) (e : Int) : LaidOut ds e
    ((if printed.positional e then positionalText else scientificText) ds e).toList := by
  by_cases hrange : -7 < e ∧ e < 21
  · have hpositional : printed.positional e = true := by simpa [printed] using hrange
    rw [if_pos hpositional, positionalText]
    by_cases he : e < 0
    · -- Zeros stand before the digits.
      rw [if_pos he]
      have hzeros : ((-e - 1).toNat : Int) = -(e + 1) := by omega
      have hlaid : LaidOut ds e _ := .below hzeros hrange.1
      simpa using hlaid
    · rw [if_neg he]
      by_cases hlen : ds.length ≤ e.toNat + 1
      · -- The digits end before the point is reached, and zeros fill up the whole part.
        have hzeros : ((e.toNat + 1 - ds.length : Nat) : Int) = e + 1 - ds.length := by omega
        have hlaid : LaidOut ds e _ := .whole hzeros hrange.2
        simpa [hlen] using hlaid
      · -- The point falls among the digits and splits them.
        have hwhole : ((ds.take (e.toNat + 1)).length : Int) = e + 1 := by
          rw [List.length_take]
          omega
        have hdrop : ds.drop (e.toNat + 1) ≠ [] := by
          rw [Ne, List.drop_eq_nil_iff]
          omega
        have htake : ds.take (e.toNat + 1) ≠ [] := by
          simpa using hne
        simpa [hlen] using LaidOut.point (List.take_append_drop _ ds) hwhole htake hdrop hrange.2
  · have hscientific : ¬ printed.positional e = true := by simpa [printed] using hrange
    obtain ⟨first, rest, rfl⟩ := List.exists_cons_of_ne_nil hne
    have hlaid : LaidOut (first :: rest) e _ := .exponent rfl (by omega)
    rw [if_neg hscientific, scientificText]
    cases rest <;> by_cases he : e < 0 <;>
      simpa [he, Nat.toString_eq_ofList_toDigits] using hlaid

/-- Zero is a whole part. -/
theorem isWhole_zero : IsWhole ['0'] := ⟨by simp, List.cons_ne_nil _ _, .inl rfl⟩

/-- Whatever digits come after the first one, the number has no zero in front. -/
theorem isWhole_append {front back : List Char} (hne : front ≠ [])
    (hfirst : front.head? ≠ some '0') (hdigit : ∀ c ∈ front ++ back, c.isDigit = true) :
    IsWhole (front ++ back) where
  digit := hdigit
  ne_nil := List.append_ne_nil_of_left_ne_nil hne _
  first := .inr (by rwa [List.head?_append_of_ne_nil _ hne])

/-- Whatever digits come before the last one, the fraction has no zero at its end. -/
theorem isFraction_append {front back : List Char} (hne : back ≠ [])
    (hlast : back.getLast? ≠ some '0') (hdigit : ∀ c ∈ front ++ back, c.isDigit = true) :
    IsFraction (front ++ back) where
  digit := hdigit
  ne_nil := List.append_ne_nil_of_right_ne_nil _ hne
  last := by rwa [List.getLast?_append_of_ne_nil _ hne]

/-- Laid out without an exponent, the digits are positional notation for their number. -/
theorem LaidOut.positional (h : LaidOut ds e cs) (hds : IsSignificant ds) (hlow : -7 < e)
    (hhigh : e < 21) : Positional cs (digitsValue ds e) := by
  cases h with
  | @whole zeros hzeros =>
    -- zeros after the digits multiply by a power of ten
    have hwhole : IsWhole (ds ++ List.replicate zeros '0') :=
      isWhole_append hds.ne_nil hds.first fun c hc =>
        isDigit_of_mem_zeros hds.digit _ (List.mem_append.1 hc).symm
    have hvalue : digitsValue ds e = Nat.ofDigitChars 10 (ds ++ List.replicate zeros '0') 0 := by
      rw [digitsValue, ← hzeros, zpow_natCast, Nat.ofDigitChars_append,
        Nat.ofDigitChars_replicate_zero]
      push_cast
      ring
    rw [hvalue]
    exact .whole hwhole
  | @point whole fraction hsplit hlength hne hne' =>
    -- both parts keep an end of the digits, which is not zero
    subst hsplit
    have hfirst : whole.head? ≠ some '0' := by
      rw [← List.head?_append_of_ne_nil _ hne]
      exact hds.first
    have hlast : fraction.getLast? ≠ some '0' := by
      rw [← List.getLast?_append_of_ne_nil _ hne']
      exact hds.last
    have hwhole : IsWhole whole :=
      ⟨fun c hc => hds.digit c (List.mem_append_left _ hc), hne, .inr hfirst⟩
    have hfraction : IsFraction fraction :=
      ⟨fun c hc => hds.digit c (List.mem_append_right _ hc), hne', hlast⟩
    have hexp : e + 1 - (whole ++ fraction).length = -(fraction.length : Int) := by
      rw [List.length_append]
      omega
    rw [digitsValue, hexp, zpow_neg, zpow_natCast, ← div_eq_mul_inv]
    exact .fraction hwhole hfraction
  | @below zeros hzeros =>
    -- zeros before the digits count as places only
    have hfraction : IsFraction (List.replicate zeros '0' ++ ds) :=
      isFraction_append hds.ne_nil hds.last fun c hc =>
        isDigit_of_mem_zeros hds.digit _ (List.mem_append.1 hc)
    have hexp : e + 1 - ds.length = -((List.replicate zeros '0' ++ ds).length : Int) := by
      rw [List.length_append, List.length_replicate]
      omega
    have hdigits : Nat.ofDigitChars 10 ds 0
        = Nat.ofDigitChars 10 (['0'] ++ (List.replicate zeros '0' ++ ds)) 0 := by
      simp [Nat.ofDigitChars_append, Nat.ofDigitChars_cons]
    rw [digitsValue, hexp, zpow_neg, zpow_natCast, ← div_eq_mul_inv, hdigits]
    exact .fraction isWhole_zero hfraction
  | exponent _ he => omega

/-- The digits of a whole number begin with zero only if the number is zero. -/
theorem head?_toDigits_ne {n : Nat} (hn : n ≠ 0) : (Nat.toDigits 10 n).head? ≠ some '0' := by
  induction n using Nat.strong_induction_on with
  | _ n ih =>
    rw [Nat.toDigits_eq_if (by decide)]
    split
    · simpa using hn
    · rw [List.head?_append_of_ne_nil _ Nat.toDigits_ne_nil]
      exact ih (n / 10) (by omega) (by omega)

/-- So are the digits of a natural number other than zero. -/
theorem isWhole_toDigits {n : Nat} (hn : n ≠ 0) : IsWhole (Nat.toDigits 10 n) where
  digit _ := Nat.isDigit_of_mem_toDigits (by decide) (by decide)
  ne_nil := Nat.toDigits_ne_nil
  first := .inr (head?_toDigits_ne hn)

/-- The exponent is what its sign and its digits say. -/
theorem exponentValue_toDigits (e : Int) :
    exponentValue (decide (e < 0)) (Nat.toDigits 10 e.natAbs) = e := by
  rw [exponentValue, Nat.ofDigitChars_ten_toDigits]
  split
  case isTrue h =>
    rw [decide_eq_true_eq] at h
    omega
  case isFalse h =>
    rw [decide_eq_true_eq] at h
    omega

/-- Laid out with an exponent, the digits are scientific notation for their number. -/
theorem LaidOut.scientific (h : LaidOut ds e cs) (hds : IsSignificant ds)
    (he : e ≤ -7 ∨ 21 ≤ e) : Scientific cs (digitsValue ds e) := by
  cases h with
  | @exponent first rest hsplit =>
    subst hsplit
    have hfirst : first ≠ '0' := by simpa using hds.first
    have hwhole : IsWhole [first] :=
      ⟨fun c hc => hds.digit c (by simp_all), List.cons_ne_nil _ _, .inr (by simpa using hfirst)⟩
    have hmantissa : Positional (first :: (if rest = [] then [] else '.' :: rest))
        (Nat.ofDigitChars 10 (first :: rest) 0 / 10 ^ rest.length) := by
      split
      case isTrue hrest =>
        subst hrest
        simpa using Positional.whole hwhole
      case isFalse hrest =>
        refine .fraction hwhole ⟨fun c hc => hds.digit c (List.mem_cons_of_mem _ hc), hrest, ?_⟩
        have hlast := hds.last
        rwa [← List.singleton_append, List.getLast?_append_of_ne_nil _ hrest] at hlast
    -- Only the first digit stands before the point.
    have htail : ∀ t ∈ (if rest = [] then [] else '.' :: rest).head?, t = '.' := by
      split <;> simp
    -- The point was moved past all the digits but one, and the exponent makes up for it.
    have hvalue : digitsValue (first :: rest) e
        = Nat.ofDigitChars 10 (first :: rest) 0 / 10 ^ rest.length
          * 10 ^ exponentValue (decide (e < 0)) (Nat.toDigits 10 e.natAbs) := by
      have hexp : e + 1 - ((first :: rest).length : Int) = e - rest.length := by
        rw [List.length_cons]
        omega
      rw [exponentValue_toDigits, digitsValue, hexp, zpow_sub₀ (by norm_num), zpow_natCast]
      ring
    have hes : IsWhole (Nat.toDigits 10 e.natAbs) := isWhole_toDigits (by omega)
    rw [hvalue]
    simpa using @Scientific.mk _ _ _ _ (decide (e < 0)) hmantissa hfirst htail hes
  | @whole zeros hzeros =>
    -- The other layouts belong to exponents that have been excluded.
    have := List.length_pos_iff.2 hds.ne_nil
    omega
  | point _ hlength hne =>
    have := List.length_pos_iff.2 hne
    omega
  | below hzeros => omega

/-! ## The digits of a number -/

/-- The digits of a decimal other than zero, without the zeros at its end. -/
theorem isSignificant_significantDigits {d : Decimal} (hd : d.digits ≠ 0) :
    IsSignificant d.significantDigits := by
  have hne := Decimal.significantDigits_ne_nil hd
  refine ⟨fun c => Decimal.isDigit_of_mem_significantDigits, hne, ?_, ?_⟩
  · obtain ⟨zeros, hzeros⟩ := d.toDigits_eq_append
    have hfirst := head?_toDigits_ne hd
    rwa [hzeros, List.head?_append_of_ne_nil _ hne] at hfirst
  · have hlast := List.head?_dropWhile_not (· == '0') (Nat.toDigits 10 d.digits).reverse
    rw [Decimal.significantDigits, List.getLast?_reverse]
    intro hzero
    rw [hzero] at hlast
    simp at hlast

/-- The shortest digits of a number other than zero are not zero. -/
theorem digits_shortest_ne_zero {b : Nat} (hb : b ≤ infinityMagnitude) (h0 : b ≠ 0) :
    (shortest b).digits ≠ 0 := by
  intro hzero
  exact h0 ((nearest_shortest hb).symm.trans (nearest_eq_zero hzero))

/-- The shortest digits that are read as a number, without its sign. -/
def digits (x : Float) : List Char := (shortest (magnitude x)).significantDigits

/-- The exponent of the first of these digits. -/
def exponent (x : Float) : Int := (shortest (magnitude x)).leadingExponent

variable {x y : Float}

/-- The digits of a finite number other than zero begin and end with a digit that counts. -/
theorem isSignificant_digits (hfinite : magnitude x < infinityMagnitude) (h0 : magnitude x ≠ 0) :
    IsSignificant (digits x) :=
  isSignificant_significantDigits (digits_shortest_ne_zero hfinite.le h0)

/-- Exponents are small, so no arithmetic on them overflows. -/
theorem exponent_bounds (hfinite : magnitude x < infinityMagnitude) (h0 : magnitude x ≠ 0) :
    -324 ≤ exponent x ∧ exponent x ≤ 308 := by
  have hnearest := nearest_shortest hfinite.le
  exact Decimal.leadingExponent_bounds (digits_shortest_ne_zero hfinite.le h0)
    (by rwa [hnearest]) (by rwa [hnearest])

/-- A decimal with the value of a number's digits has its magnitude. -/
theorem nearest_of_value_eq {d : Decimal} (hfinite : magnitude x < infinityMagnitude)
    (hd : d.value = digitsValue (digits x) (exponent x)) : d.nearest = magnitude x := by
  have hvalue : d.value = (shortest (magnitude x)).value := by
    rw [hd, Decimal.value_eq_significantDigits]
    rfl
  rw [Decimal.nearest_congr hvalue, nearest_shortest hfinite.le]

/-- The text of a number is its digits, laid out, after a sign if it is below zero. -/
theorem exists_laidOut (hfinite : magnitude x < infinityMagnitude) (h0 : magnitude x ≠ 0) :
    ∃ body, LaidOut (digits x) (exponent x) body
      ∧ (text x).toList = (if x < 0 then ['-'] else []) ++ body := by
  refine ⟨_, laidOut_text (isSignificant_digits hfinite h0).ne_nil (exponent x), ?_⟩
  have htext : text x = (if isNegative x then "-" else "")
      ++ printed.magnitudeText (magnitude x) := by
    simp [text, Style.write, h0, hfinite.ne, hfinite.not_gt]
  rw [htext, String.toList_append]
  simp only [lt_zero_iff hfinite h0, Style.magnitudeText, digits, exponent]
  cases isNegative x <;> rfl

/-- Laid out digits stand for their number. -/
theorem LaidOut.denotes (h : LaidOut ds e cs) (hds : IsSignificant ds) :
    Denotes cs (digitsValue ds e) := by
  by_cases hrange : -7 < e ∧ e < 21
  · exact .inl (h.positional hds hrange.1 hrange.2)
  · exact .inr (h.scientific hds (by omega))

/-- The two zeros are the numbers of magnitude zero. -/
theorem beq_zero_iff : (x == 0) = true ↔ magnitude x = 0 := by
  constructor
  · intro h
    obtain ⟨-, -, rfl | ⟨rfl, -⟩ | ⟨rfl, -⟩⟩ := Float.beq_iff_ne_nan_and_eq.1 h <;> decide +kernel
  · intro h
    rw [← ofMagnitude_magnitude x, h]
    cases isNegative x <;> decide

/-- Positional are zero and the finite numbers with an exponent between -7 and 21. -/
theorem isPositional_iff : isPositional x = true
    ↔ isFinite x = true ∧ ((x == 0) = true ∨ -7 < exponent x ∧ exponent x < 21) := by
  have hzero : magnitude x = 0 → isFinite x = true := by
    intro h
    rw [isFinite, h]
    decide
  rw [beq_zero_iff, isPositional, exponent]
  simp only [Bool.or_eq_true, beq_iff_eq, Bool.and_eq_true, decide_eq_true_eq]
  tauto

/-- How a finite number other than zero is printed. -/
structure PrintedAs (x : Float) (sign body : List Char) : Prop where
  text_eq : (text x).toList = sign ++ body
  sign_eq : sign = if x < 0 then ['-'] else []
  /-- The digits begin and end with another digit than zero. -/
  significant : IsSignificant (digits x)
  /-- Arithmetic on exponents does not overflow. -/
  exponent_bounds : -324 ≤ exponent x ∧ exponent x ≤ 308
  /-- Whatever decimal has the value of the digits, it is read as the number. -/
  reads : ∀ d : Decimal, d.value = digitsValue (digits x) (exponent x) →
    d.toFloat (isNegative x) = x
  /-- The digits, and zeros as many as there must be, make up the text. -/
  laidOut : LaidOut (digits x) (exponent x) body
  /-- Exponents from `-6` to `20` are positional. -/
  positional_iff : Positional body (digitsValue (digits x) (exponent x))
    ↔ -7 < exponent x ∧ exponent x < 21
  /-- All others are scientific. -/
  scientific_iff : Scientific body (digitsValue (digits x) (exponent x))
    ↔ ¬ (-7 < exponent x ∧ exponent x < 21)

/-- Every finite number other than zero is printed in one of the layouts. -/
theorem exists_printedAs (hfinite : magnitude x < infinityMagnitude) (h0 : magnitude x ≠ 0) :
    ∃ sign body, PrintedAs x sign body := by
  obtain ⟨body, hlaid, htext⟩ := exists_laidOut hfinite h0
  have hdigits := isSignificant_digits hfinite h0
  have hscientific (h : ¬ (-7 < exponent x ∧ exponent x < 21)) :
      Scientific body (digitsValue (digits x) (exponent x)) := hlaid.scientific hdigits (by omega)
  refine ⟨_, body, htext, rfl, hdigits, exponent_bounds hfinite h0, fun d hd => ?_, hlaid,
    ⟨fun h => ?_, ?_⟩, ⟨?_, hscientific⟩⟩
  · rw [Decimal.toFloat, nearest_of_value_eq hfinite hd, ofMagnitude_magnitude]
  · by_contra hrange
    exact h.not_scientific (hscientific hrange)
  · rintro ⟨hlow, hhigh⟩
    exact hlaid.positional hdigits hlow hhigh
  · rintro h ⟨hlow, hhigh⟩
    exact (hlaid.positional hdigits hlow hhigh).not_scientific h

example : text (-0.00000015) = "-1.5e-7" := by decide +kernel

/-! ## Numbers with the same text -/

/-- The text of a magnitude: a word for those that are not finite, and otherwise the notation of a
decimal that is read as this magnitude. -/
inductive Body : Nat → List Char → Prop
  | undefined {b : Nat} (h : infinityMagnitude < b) : Body b "NaN".toList
  | infinite : Body infinityMagnitude "Infinity".toList
  | finite {cs : List Char} {d : Decimal} (hcs : Denotes cs d.value)
      (hd : d.nearest < infinityMagnitude) : Body d.nearest cs

/-- Either notation begins with a digit. -/
theorem Denotes.isDigit_head? (h : Denotes cs q) : cs.head?.any Char.isDigit = true := by
  rcases h with h | h
  · obtain ⟨⟨c, rest, rfl, hc⟩, -⟩ := h.chars
    exact hc
  · cases h with
    | mk hm =>
      obtain ⟨⟨c, rest, hcs, hc⟩, -⟩ := hm.chars
      rw [hcs]
      exact hc

/-- Different magnitudes have different texts, unless both are undefined. -/
theorem Body.inj {b b' : Nat} (h : Body b cs) (h' : Body b' cs) :
    b = b' ∨ infinityMagnitude < b ∧ infinityMagnitude < b' := by
  -- The two words do not begin with a digit, so neither denotes a number.
  have hundefined : ∀ q, ¬ Denotes "NaN".toList q :=
    fun q hq => absurd hq.isDigit_head? (by decide)
  have hinfinite : ∀ q, ¬ Denotes "Infinity".toList q :=
    fun q hq => absurd hq.isDigit_head? (by decide)
  generalize hcs : cs = cs' at h'
  cases h with
  | undefined hb =>
    cases h' with
    | undefined hb' => exact .inr ⟨hb, hb'⟩
    | infinite => exact absurd hcs (by decide)
    | finite hd => exact absurd (hcs ▸ hd) (hundefined _)
  | infinite =>
    cases h' with
    | undefined => exact absurd hcs (by decide)
    | infinite => exact .inl rfl
    | finite hd => exact absurd (hcs ▸ hd) (hinfinite _)
  | finite hd =>
    cases h' with
    | undefined => exact absurd (hcs ▸ hd) (hundefined _)
    | infinite => exact absurd (hcs ▸ hd) (hinfinite _)
    | finite hd' =>
      subst hcs
      exact .inl (Decimal.nearest_congr (hd.unique hd'))

/-- The text of a magnitude does not begin with a sign. -/
theorem Body.head?_ne {b : Nat} (h : Body b cs) : cs.head? ≠ some '-' := by
  cases h with
  | undefined | infinite => decide
  | finite hd =>
    intro hminus
    have hdigit := hd.isDigit_head?
    rw [hminus] at hdigit
    simp at hdigit

/-- Whether the text of a number has a sign. -/
def isSigned (x : Float) : Bool :=
  isNegative x && (0 < magnitude x && magnitude x ≤ infinityMagnitude)

/-- Zero is written as the digit zero. -/
theorem body_zero : Body 0 ['0'] := by
  have hdenotes : Denotes ['0'] (⟨0, 0⟩ : Decimal).value := by
    rw [Decimal.value, zpow_zero, mul_one]
    exact .inl (.whole isWhole_zero)
  have hnearest : (⟨0, 0⟩ : Decimal).nearest = 0 := nearest_eq_zero rfl
  rw [← hnearest]
  exact .finite hdenotes (by rw [hnearest]; decide)

/-- A finite number is written as any text that denotes its digits. -/
theorem body_of_denotes (hfinite : magnitude x < infinityMagnitude)
    (hcs : Denotes cs (digitsValue (digits x) (exponent x))) : Body (magnitude x) cs := by
  obtain ⟨d, hd⟩ : ∃ d : Decimal, d.value = digitsValue (digits x) (exponent x) :=
    ⟨shortest (magnitude x), Decimal.value_eq_significantDigits _⟩
  have hnearest := nearest_of_value_eq hfinite hd
  rw [← hnearest] at hfinite ⊢
  rw [← hd] at hcs
  exact .finite hcs hfinite

/-- The text of a number is that of its magnitude, perhaps after a sign. -/
theorem exists_body (x : Float) : ∃ body, Body (magnitude x) body
    ∧ (text x).toList = (if isSigned x then ['-'] else []) ++ body := by
  rcases lt_trichotomy (magnitude x) infinityMagnitude with hlt | heq | hgt
  · -- A finite number: zero has a text of its own, any other is laid out by its digits.
    by_cases h0 : magnitude x = 0
    · refine ⟨['0'], h0 ▸ body_zero, ?_⟩
      simp [text, Style.write, printed, isSigned, h0, infinityMagnitude]
    · obtain ⟨body, hlaid, htext⟩ := exists_laidOut hlt h0
      have hsigned : x < 0 ↔ isSigned x = true := by
        rw [lt_zero_iff hlt h0]
        simp [isSigned, Nat.pos_of_ne_zero h0, hlt.le]
      refine ⟨body, body_of_denotes hlt (hlaid.denotes (isSignificant_digits hlt h0)), ?_⟩
      rw [htext]
      simp only [hsigned]
  · refine ⟨"Infinity".toList, heq ▸ .infinite, ?_⟩
    have hpos : 0 < infinityMagnitude := by decide
    rw [text, Style.write]
    simp only [heq, lt_irrefl, if_false, if_true, isSigned, printed]
    cases isNegative x <;> simp [hpos]
  · refine ⟨"NaN".toList, .undefined hgt, ?_⟩
    simp [text, Style.write, isSigned, hgt, hgt.not_ge]

/-- Numbers that count as equal have the same text: zero is written without a sign. -/
theorem text_eq_of_beq (h : (x == y) = true) : text x = text y := by
  obtain ⟨-, -, rfl | ⟨rfl, rfl⟩ | ⟨rfl, rfl⟩⟩ := Float.beq_iff_ne_nan_and_eq.1 h
  · rfl
  · decide +kernel
  · decide +kernel

/-- Numbers of the same magnitude are equal if their texts have the same sign. -/
theorem beq_of_magnitude_eq (hb : magnitude x = magnitude y) (hsigned : isSigned x = isSigned y)
    (hdefined : magnitude y ≤ infinityMagnitude) : (x == y) = true := by
  by_cases h0 : magnitude y = 0
  · rw [← ofMagnitude_magnitude x, ← ofMagnitude_magnitude y, hb, h0]
    cases isNegative x <;> cases isNegative y <;> decide
  · have hsign : isNegative x = isNegative y := by
      simpa [isSigned, hb, Nat.pos_of_ne_zero h0, hdefined] using hsigned
    have hxy : x = y := by
      rw [← ofMagnitude_magnitude x, ← ofMagnitude_magnitude y, hb, hsign]
    rw [hxy, Float.beq_self_iff]
    intro hnan
    have := isNaN_iff.1 (Float.isNaN_eq_decide_eq_nan ▸ decide_eq_true hnan)
    omega

/-- Two numbers have the same text exactly when they are equal or both undefined. -/
theorem text_eq_text_iff (x y : Float) :
    text x = text y ↔ (x == y) = true ∨ x.isNaN = true ∧ y.isNaN = true := by
  constructor
  · intro htext
    obtain ⟨cs, hcs, hx⟩ := exists_body x
    obtain ⟨cs', hcs', hy⟩ := exists_body y
    rw [htext, hy] at hx
    -- a body begins with no sign, so equal texts have equal signs and equal bodies
    have hparts : isSigned x = isSigned y ∧ cs = cs' := by
      cases hsx : isSigned x <;> cases hsy : isSigned y <;> rw [hsx, hsy] at hx
      · exact ⟨rfl, hx.symm⟩
      · exact absurd (congrArg List.head? hx).symm hcs.head?_ne
      · exact absurd (congrArg List.head? hx) hcs'.head?_ne
      · exact ⟨rfl, (List.cons.inj hx).2.symm⟩
    obtain ⟨hsigned, rfl⟩ := hparts
    rcases hcs.inj hcs' with hb | hb
    · by_cases hdefined : magnitude y ≤ infinityMagnitude
      · exact .inl (beq_of_magnitude_eq hb hsigned hdefined)
      · exact .inr ⟨isNaN_iff.2 (by omega), isNaN_iff.2 (by omega)⟩
    · exact .inr ⟨isNaN_iff.2 hb.1, isNaN_iff.2 hb.2⟩
  · rintro (h | ⟨hx, hy⟩)
    · exact text_eq_of_beq h
    · simp [text, Style.write, isNaN_iff.1 hx, isNaN_iff.1 hy]

end ObjectLisp.Number
