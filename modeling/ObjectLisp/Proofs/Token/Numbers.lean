import ObjectLisp.Proofs.Number.Printed
import ObjectLisp.Proofs.Token.Words

/-!
# Tokens of printed numbers

Printed numbers are words. Those in positional notation are read as numbers again. The others are
not: with an exponent they begin like a number and are malformed (`tokenize_scientific`), and those
of infinite and undefined numbers are names (`tokenize_of_not_isFinite`). What is known about
printed numbers stands together in `printed_numbers`.
-/

namespace ObjectLisp.Lexer

open ObjectLisp.Number

variable {x : Float}

/-! ## A word alone -/

/-- The tokens of a source that is one word. -/
def single (kind : TokenKind) (word : String) : List Token :=
  [⟨kind, word, .start⟩, ⟨.endOfInput, "", Position.start.right word.toList.length⟩]

theorem tokenize_eq_single {word : String} {kind : TokenKind}
    (h : Spans .start word.toList [] [⟨kind, word, .start⟩]
      (Position.start.right word.toList.length)) : tokenize word = .ok (single kind word) := by
  have htokens := h _ (by rw [tokensFrom])
  rwa [List.append_nil] at htokens

/-! ## Notations with an exponent -/

/-- Scientific notation holds digits and four other characters. -/
theorem chars_of_scientific {cs : List Char} {q : ℚ} (h : Scientific cs q) :
    ∀ c ∈ cs, c.isDigit = true ∨ c ∈ ['.', '-', 'e', '+'] := by
  cases h with
  | @mk c tail es q negative hq hc htail hes =>
    intro a ha
    rcases List.mem_append.1 ha with ha | ha
    · exact (hq.chars.2 a ha).imp_right (by rintro rfl; simp)
    · simp only [List.mem_cons] at ha
      rcases ha with rfl | rfl | ha
      · simp
      · cases negative <;> simp
      · exact .inl (hes.digit a ha)

/-- Digits and the other characters of printed numbers are part of words. -/
theorem isWordCharacter_of_printed {c : Char}
    (h : c.isDigit = true ∨ c ∈ ['.', '-', 'e', '+']) :
    Text.isWordCharacter c = true ∧ Text.isControl c = false := by
  rcases h with h | h
  · exact isWordCharacter_of_numeral (.inl h)
  · fin_cases h <;> decide

theorem isWord_of_printed {cs : List Char} (hne : cs ≠ [])
    (h : ∀ c ∈ cs, c.isDigit = true ∨ c ∈ ['.', '-', 'e', '+']) : isWord cs = true := by
  obtain ⟨c, rest, rfl⟩ := List.exists_cons_of_ne_nil hne
  simp only [isWord, Bool.and_eq_true, List.all_eq_true, Bool.not_eq_true']
  exact ⟨fun a ha => (isWordCharacter_of_printed (h a ha)).1,
    (isWordCharacter_of_printed (h c List.mem_cons_self)).2⟩

/-- What begins with a digit, perhaps after a minus sign, has to be a number. -/
theorem startsNumber_signed {cs : List Char} (h : cs.head?.any Char.isDigit = true)
    (negative : Prop) [Decidable negative] :
    startsNumber ((if negative then ['-'] else []) ++ cs) = true := by
  obtain ⟨c, rest, rfl⟩ : ∃ c rest, cs = c :: rest := by
    cases cs with
    | nil => simp at h
    | cons c rest => exact ⟨c, rest, rfl⟩
  have hc : c.isDigit = true := by simpa using h
  have hminus : c ≠ '-' := by
    rintro rfl
    simp at hc
  split
  · exact hc
  · simp [startsNumber, hc, hminus]

/-- The text of a finite number that needs an exponent begins like a number and is none. -/
theorem tokenize_scientific (hfinite : magnitude x < infinityMagnitude) (h0 : magnitude x ≠ 0)
    (he : exponent x ≤ -7 ∨ 21 ≤ exponent x) :
    tokenize (text x) = .error (.fault .start (.malformedNumber (text x))) := by
  obtain ⟨body, hlaid, htext⟩ := exists_laidOut hfinite h0
  have hbody := hlaid.scientific (isSignificant_digits hfinite h0) he
  have hword : isWord (text x).toList = true := by
    refine isWord_of_printed ?_ fun c hc => ?_
    · rw [htext]
      exact List.append_ne_nil_of_right_ne_nil _ (List.ne_nil_of_mem hbody.mem_e)
    · rw [htext] at hc
      rcases List.mem_append.1 hc with hc | hc
      · split at hc <;> simp_all
      · exact chars_of_scientific hbody c hc
  have hstart : startsNumber (text x).toList = true := by
    rw [htext]
    exact startsNumber_signed (Denotes.isDigit_head? (.inr hbody)) _
  -- a numeral has no letter, so the exponent makes it malformed
  have hnone : Number.ofChars? (text x).toList = none := by
    refine Option.eq_none_iff_forall_ne_some.2 fun y hy => ?_
    have he : 'e' ∈ (text x).toList := by
      rw [htext]
      exact List.mem_append_right _ hbody.mem_e
    have hchar := (numeral_of_ofChars? hy).2.2 'e' he
    simp at hchar
  have hkind : wordKind (text x).toList = .error (.malformedNumber (text x)) := by
    rw [wordKind, hstart, if_pos rfl, hnone, String.ofList_toList]
  have htokens := @tokensFrom_word _ [] hword rfl .start
  rwa [List.append_nil, hkind] at htokens

/-! ## Infinite and undefined numbers -/

/-- The text of a number that is not finite is a name. -/
theorem tokenize_of_not_isFinite (h : infinityMagnitude ≤ magnitude x) :
    tokenize (text x) = .ok (single (.identifier (text x)) (text x)) := by
  have hname {name : String} (hname : isName name.toList = true)
      (hkind : nameKind name = .identifier name) :
      tokenize name = .ok (single (.identifier name) name) := by
    refine tokenize_eq_single ?_
    have hspans := @spans_name _ [] hname rfl .start
    rwa [hkind] at hspans
  have htext : text x = "NaN" ∨ text x = "Infinity" ∨ text x = "-Infinity" := by
    rcases Nat.lt_or_eq_of_le h with h | h
    · exact .inl (by simp [text, Style.write, h])
    · refine .inr ?_
      rw [text, Style.write]
      simp only [← h, lt_irrefl, if_false, if_true, printed]
      cases isNegative x <;> simp
  rcases htext with htext | htext | htext <;> rw [htext] <;> exact hname (by decide) (by decide)

/-! ## Printed numbers -/

/-- The text of a number is one number token for an equal number exactly when it has no exponent. -/
theorem tokenize_number_iff (x : Float) :
    (∃ y, tokenize (text x) = .ok (single (.number y) (text x)) ∧ (y == x) = true)
      ↔ isPositional x = true := by
  constructor
  · rintro ⟨y, hy, -⟩
    by_contra hpositional
    rw [isPositional_iff, beq_zero_iff, isFinite, decide_eq_true_eq] at hpositional
    by_cases hfinite : magnitude x < infinityMagnitude
    · rw [tokenize_scientific hfinite (by tauto) (by omega)] at hy
      cases hy
    · rw [tokenize_of_not_isFinite (Nat.not_lt.1 hfinite)] at hy
      simp [single] at hy
  · intro hpositional
    obtain ⟨y, heq, hspans⟩ := @spans_number x [] hpositional rfl .start
    exact ⟨y, tokenize_eq_single hspans, heq⟩

end ObjectLisp.Lexer

namespace ObjectLisp

open ObjectLisp.Number ObjectLisp.Lexer

/-- A finite number other than zero is printed with its shortest digits in one of two notations,
with a minus sign if it is below zero. The text stands for exactly the decimal of those digits, so
it tells all numbers apart that are not equal. The lexer reads it as the number, or refuses it if it
has an exponent; infinite and undefined numbers are printed as names. -/
theorem printed_numbers :
    (∀ x, isFinite x = true → ¬ (x == 0) = true → ∃ sign body, PrintedAs x sign body)
    ∧ (∀ x y, text x = text y ↔ (x == y) = true ∨ x.isNaN = true ∧ y.isNaN = true)
    ∧ ∀ x,
      ((∃ y, tokenize (text x) = .ok (single (.number y) (text x)) ∧ (y == x) = true)
        ↔ isFinite x = true ∧ ((x == 0) = true ∨ -7 < exponent x ∧ exponent x < 21))
      ∧ (isFinite x = true → ¬ (x == 0) = true → ¬ (-7 < exponent x ∧ exponent x < 21) →
        tokenize (text x) = .error (.fault .start (.malformedNumber (text x))))
      ∧ (isFinite x = false →
        tokenize (text x) = .ok (single (.identifier (text x)) (text x))) := by
  refine ⟨fun x hfinite h0 => ?_, text_eq_text_iff, fun x => ⟨?_, fun hfinite h0 he => ?_, ?_⟩⟩
  · exact exists_printedAs (of_decide_eq_true hfinite) (mt beq_zero_iff.2 h0)
  · rw [tokenize_number_iff, isPositional_iff]
  · exact tokenize_scientific (of_decide_eq_true hfinite) (mt beq_zero_iff.2 h0) (by omega)
  · intro hfinite
    exact tokenize_of_not_isFinite (Nat.not_lt.1 (of_decide_eq_false hfinite))

end ObjectLisp
