import ObjectLisp.Proofs.Token.Words
import ObjectLisp.Text.Character
import ObjectLisp.Text.Quoted

/-!
# Quoted texts show all there is

Two laws of `Text.quote`, which writes a text so that a reader can see it. Nothing in a quoted text
is invisible: no character of it is unprintable or combines with the one before it, so no control
character and no space but the plain one (`quote_visible`). And nothing is lost: different texts are
quoted differently (`quote_injective`).

The first law needs the three tables of characters. In an increasing table the search finds a code
point exactly when one of the ranges holds it (`covers_eq_true_iff`), so a class of characters is
the union of its ranges, and that one class holds another can be read off the ranges.

The second law is that of a code in which no word begins another: what a character is written as
can be told from whatever follows it.
-/

namespace ObjectLisp.Text

/-! ## The classes as unions of ranges -/

/-- White space is what the ranges of its table hold. -/
theorem isWhitespace_iff (c : Char) :
    isWhitespace c ↔ ∃ r ∈ whitespaceRanges, r.1 ≤ c.toNat ∧ c.toNat ≤ r.2 :=
  covers_eq_true_iff whitespaceRanges_increasing

/-- The unprintable characters are what the ranges of their table hold. -/
theorem isUnprintable_iff (c : Char) :
    isUnprintable c ↔ ∃ r ∈ unprintableRanges, r.1 ≤ c.toNat ∧ c.toNat ≤ r.2 :=
  covers_eq_true_iff unprintableRanges_increasing

/-- The combining characters are what the ranges of their table hold. -/
theorem isCombining_iff (c : Char) :
    isCombining c ↔ ∃ r ∈ combiningRanges, r.1 ≤ c.toNat ∧ c.toNat ≤ r.2 :=
  covers_eq_true_iff combiningRanges_increasing

/-- Every range of white space but that of the plain space lies in a range of unprintable
characters. -/
theorem whitespaceRanges_subset :
    ∀ r ∈ whitespaceRanges, r = (0x20, 0x20) ∨
      ∃ u ∈ unprintableRanges, u.1 ≤ r.1 ∧ r.2 ≤ u.2 := by
  decide +kernel

/-- The ranges of unprintable characters leave the printable characters of one byte out. -/
theorem unprintableRanges_beside : ∀ r ∈ unprintableRanges, r.2 < 0x20 ∨ 0x7F ≤ r.1 := by
  decide +kernel

/-- The ranges of combining characters begin above the characters of one byte. -/
theorem combiningRanges_above : ∀ r ∈ combiningRanges, 0x80 ≤ r.1 := by decide +kernel

/-- White space other than the plain space is unprintable. -/
theorem isUnprintable_of_isWhitespace {c : Char} (h : isWhitespace c) (hc : c ≠ ' ') :
    isUnprintable c := by
  obtain ⟨r, hr, hlow, hhigh⟩ := (isWhitespace_iff c).1 h
  obtain rfl | ⟨u, hu, hfirst, hlast⟩ := whitespaceRanges_subset r hr
  · have hspace : c.toNat = ' '.toNat := Nat.le_antisymm hhigh hlow
    exact absurd (Char.toNat_inj.1 hspace) hc
  · exact (isUnprintable_iff c).2 ⟨u, hu, Nat.le_trans hfirst hlow, Nat.le_trans hhigh hlast⟩

/-- Control characters are unprintable. -/
theorem isUnprintable_of_isControl {c : Char} (h : isControl c) : isUnprintable c := by
  rw [isControl, Bool.or_eq_true, Bool.and_eq_true, decide_eq_true_eq, decide_eq_true_eq,
    decide_eq_true_eq] at h
  rw [isUnprintable_iff]
  obtain h | h := h
  · exact ⟨(0x00, 0x1F), by decide, by simp, by simp; omega⟩
  · exact ⟨(0x7F, 0xA0), by decide, by simpa using h.1, by simp; omega⟩

/-! ## What a quoted text shows -/

/-- Whether a character can be seen for itself: it is neither unprintable nor combining. -/
def isVisible (c : Char) : Bool := !isUnprintable c && !isCombining c

/-- A character is visible unless a range of one of the two tables holds it. -/
theorem isVisible_iff (c : Char) : isVisible c ↔ ¬ isUnprintable c ∧ ¬ isCombining c := by
  simp [isVisible]

/-- The printable characters of one byte are visible. -/
theorem isVisible_of_byte {c : Char} (hlow : 0x20 ≤ c.toNat) (hhigh : c.toNat < 0x7F) :
    isVisible c := by
  rw [isVisible_iff, isUnprintable_iff, isCombining_iff]
  constructor
  · rintro ⟨r, hr, hfirst, hlast⟩
    have := unprintableRanges_beside r hr
    omega
  · rintro ⟨r, hr, hfirst, -⟩
    have := combiningRanges_above r hr
    omega

/-- A visible character is no control character. -/
theorem not_isControl_of_isVisible {c : Char} (h : isVisible c) : ¬ isControl c :=
  fun hcontrol => ((isVisible_iff c).1 h).1 (isUnprintable_of_isControl hcontrol)

/-- A visible character is no white space but the plain space. -/
theorem not_isWhitespace_of_isVisible {c : Char} (h : isVisible c) (hc : c ≠ ' ') :
    ¬ isWhitespace c :=
  fun hspace => ((isVisible_iff c).1 h).1 (isUnprintable_of_isWhitespace hspace hc)

/-! ## How a character is spelled -/

/-- The characters with an escape of two characters, and the second of these. -/
def shortEscapes : List (Char × Char) :=
  [('"', '"'), ('\\', '\\'), ('\x00', '0'), ('\t', 't'), ('\n', 'n'), ('\r', 'r')]

/-- The ways in which a character is spelled inside a quoted text. -/
inductive Spells : Char → List Char → Prop
  | itself {c : Char} (visible : isVisible c) (quote : c ≠ '"') (backslash : c ≠ '\\') :
    Spells c [c]
  | short {c k : Char} (known : (c, k) ∈ shortEscapes) : Spells c ['\\', k]
  | hexadecimal (c : Char) :
    Spells c ('\\' :: 'u' :: '\x7b' :: (Nat.toDigits 16 c.toNat ++ ['\x7d']))

/-- An escape spells the character it is written for. -/
theorem spells_escape (c : Char) : Spells c (escape c).toList := by
  rw [escape]
  split
  · next h => exact beq_iff_eq.1 h ▸ .short (by decide)
  split
  · next h => exact beq_iff_eq.1 h ▸ .short (by decide)
  split
  · next h => exact beq_iff_eq.1 h ▸ .short (by decide)
  split
  · next h => exact beq_iff_eq.1 h ▸ .short (by decide)
  · simpa [hexEscape] using Spells.hexadecimal c

/-- Every character of a quoted text is spelled. -/
theorem spells_quoteCharacter (c : Char) : Spells c (quoteCharacter c).toList := by
  rw [quoteCharacter]
  split
  · next h => exact beq_iff_eq.1 h ▸ .short (by decide)
  split
  · next h => exact beq_iff_eq.1 h ▸ .short (by decide)
  split
  · exact spells_escape c
  · next hquote hbackslash h =>
    rw [Char.toString, String.toList_singleton]
    exact .itself (by simpa [isVisible] using h) (by simpa using hquote) (by simpa using hbackslash)

/-- A hexadecimal digit is the digit of a number below sixteen. -/
theorem exists_of_mem_toDigits {n : Nat} {c : Char} (h : c ∈ Nat.toDigits 16 n) :
    ∃ d < 16, c = Nat.digitChar d := by
  induction n using Nat.strongRecOn with
  | ind n ih =>
    rw [Nat.toDigits_eq_if (by decide)] at h
    split at h
    · exact ⟨n, ‹_›, List.mem_singleton.1 h⟩
    · obtain h | h := List.mem_append.1 h
      · exact ih _ (Nat.div_lt_self (by omega) (by decide)) h
      · exact ⟨n % 16, Nat.mod_lt _ (by decide), List.mem_singleton.1 h⟩

/-- Numbers with the same hexadecimal digits are equal. -/
theorem toDigits_injective {m n : Nat} (h : Nat.toDigits 16 m = Nat.toDigits 16 n) : m = n := by
  have hdigit : ∀ a < 16, ∀ b < 16, Nat.digitChar a = Nat.digitChar b → a = b := by decide
  induction m using Nat.strongRecOn generalizing n with
  | ind m ih =>
    rw [Nat.toDigits_eq_if (by decide), Nat.toDigits_eq_if (n := n) (by decide)] at h
    split at h <;> split at h
    · exact hdigit m ‹_› n ‹_› (by simpa using h)
    -- One digit against several: the front of the longer one would be empty.
    · exact absurd (congrArg List.length h) (by simp [Nat.toDigits_ne_nil])
    · exact absurd (congrArg List.length h) (by simp [Nat.toDigits_ne_nil])
    · obtain ⟨hfront, hlast⟩ := List.append_inj' h rfl
      have hquotient := ih (m / 16) (Nat.div_lt_self (by omega) (by decide)) hfront
      have hremainder := hdigit _ (Nat.mod_lt m (by decide)) _ (Nat.mod_lt n (by decide))
        (by simpa using hlast)
      omega

/-- The digits of a number end at the first closing brace, since no digit is one. -/
theorem toDigits_append_inj {m n : Nat} {r s : List Char}
    (h : Nat.toDigits 16 m ++ '\x7d' :: r = Nat.toDigits 16 n ++ '\x7d' :: s) :
    m = n ∧ r = s := by
  have hends : ∀ (n : Nat) (r : List Char),
      (Nat.toDigits 16 n ++ '\x7d' :: r).takeWhile (· != '\x7d') = Nat.toDigits 16 n ∧
        (Nat.toDigits 16 n ++ '\x7d' :: r).dropWhile (· != '\x7d') = '\x7d' :: r := by
    intro n r
    refine Lexer.span_eq_of_append (fun c hc => ?_) (by simp)
    obtain ⟨d, -, rfl⟩ := exists_of_mem_toDigits hc
    simp
  constructor
  · exact toDigits_injective ((hends m r).1.symm.trans (h ▸ (hends n s).1))
  · exact (List.cons.inj ((hends m r).2.symm.trans (h ▸ (hends n s).2))).2

namespace Spells

variable {c d : Char} {v w : List Char}

/-- All that a character is spelled with is visible. -/
theorem visible (h : Spells c w) : ∀ d ∈ w, isVisible d := by
  cases h with
  | itself hvisible => simpa using hvisible
  | short hknown =>
    have hbyte : ∀ p ∈ shortEscapes, 0x20 ≤ p.2.toNat ∧ p.2.toNat < 0x7F := by decide
    obtain ⟨hlow, hhigh⟩ := hbyte _ hknown
    simpa using And.intro (isVisible_of_byte (by decide) (by decide)) (isVisible_of_byte hlow hhigh)
  | hexadecimal =>
    have hdigit : ∀ n < 16, 0x20 ≤ (Nat.digitChar n).toNat ∧ (Nat.digitChar n).toNat < 0x7F := by
      decide
    intro d hd
    simp only [List.mem_cons, List.mem_append, List.not_mem_nil, or_false] at hd
    obtain rfl | rfl | rfl | hd | rfl := hd
    case inr.inr.inr.inl =>
      obtain ⟨n, hn, rfl⟩ := exists_of_mem_toDigits hd
      exact isVisible_of_byte (hdigit n hn).1 (hdigit n hn).2
    all_goals exact isVisible_of_byte (by decide) (by decide)

/-- A spelling is not empty and does not begin with a quote. -/
theorem head_ne_quote (h : Spells c w) (r : List Char) : ∀ s, w ++ r ≠ '"' :: s := by
  cases h with
  | itself _ hquote => simp [hquote]
  | short => simp
  | hexadecimal => simp

/-- No spelling begins another: the character can be told, whatever follows its spelling. -/
theorem append_inj (hc : Spells c v) (hd : Spells d w) {r s : List Char} (h : v ++ r = w ++ s) :
    c = d ∧ r = s := by
  -- The second character tells the short escapes from the long one and from each other.
  have hshort : ∀ p ∈ shortEscapes, p.2 ≠ 'u' := by decide
  have hinj : ∀ p ∈ shortEscapes, ∀ q ∈ shortEscapes, p.2 = q.2 → p.1 = q.1 := by decide
  cases hc with
  | itself _ _ hbackslash =>
    cases hd with
    | itself => simpa using h
    | short => exact absurd (List.cons.inj h).1 hbackslash
    | hexadecimal => exact absurd (List.cons.inj h).1 hbackslash
  | short hk =>
    cases hd with
    | itself _ _ hbackslash => exact absurd (List.cons.inj h).1.symm hbackslash
    | short hl =>
      simp only [List.cons_append, List.nil_append, List.cons.injEq, true_and] at h
      exact ⟨hinj _ hk _ hl h.1, h.2⟩
    | hexadecimal => exact absurd (List.cons.inj (List.cons.inj h).2).1 (hshort _ hk)
  | hexadecimal =>
    cases hd with
    | itself _ _ hbackslash => exact absurd (List.cons.inj h).1.symm hbackslash
    | short hl => exact absurd (List.cons.inj (List.cons.inj h).2).1.symm (hshort _ hl)
    | hexadecimal =>
      simp only [List.cons_append, List.append_assoc, List.nil_append, List.cons.injEq,
        true_and] at h
      obtain ⟨hdigits, hrest⟩ := toDigits_append_inj h
      exact ⟨Char.toNat_inj.1 hdigits, hrest⟩

end Spells

/-! ## Quoted texts -/

/-- The characters between the quotes: the spellings of the characters of a text. -/
def spelled (cs : List Char) : List Char := cs.flatMap fun c => (quoteCharacter c).toList

@[simp]
theorem spelled_nil : spelled [] = [] := rfl

@[simp]
theorem spelled_cons (c : Char) (cs : List Char) :
    spelled (c :: cs) = (quoteCharacter c).toList ++ spelled cs := rfl

/-- A quoted text by its characters. -/
theorem toList_quote (s : String) : (quote s).toList = '"' :: (spelled s.toList ++ ['"']) := by
  simp [quote, spelled, List.flatMap_map]

/-- Up to the quote that ends it, a spelled text can be told from whatever follows. -/
theorem spelled_append_inj {cs ds r s : List Char}
    (h : spelled cs ++ '"' :: r = spelled ds ++ '"' :: s) : cs = ds ∧ r = s := by
  induction cs generalizing ds with
  | nil =>
    cases ds with
    | nil => simpa using h
    | cons d ds =>
      -- One text ends here and the other goes on, but no spelling begins with the quote.
      rw [spelled_nil, List.nil_append, spelled_cons, List.append_assoc] at h
      exact absurd h.symm ((spells_quoteCharacter d).head_ne_quote _ _)
  | cons c cs ih =>
    cases ds with
    | nil =>
      rw [spelled_nil, List.nil_append, spelled_cons, List.append_assoc] at h
      exact absurd h ((spells_quoteCharacter c).head_ne_quote _ _)
    | cons d ds =>
      rw [spelled_cons, spelled_cons, List.append_assoc, List.append_assoc] at h
      obtain ⟨rfl, hrest⟩ := (spells_quoteCharacter c).append_inj (spells_quoteCharacter d) h
      obtain ⟨rfl, hr⟩ := ih hrest
      exact ⟨rfl, hr⟩

/-- Every character of a quoted text is visible: there is no control character in it, and no white
space but the plain space. -/
theorem quote_visible {s : String} {c : Char} (h : c ∈ (quote s).toList) :
    isVisible c ∧ ¬ isControl c ∧ (isWhitespace c → c = ' ') := by
  have hquote : isVisible '"' := isVisible_of_byte (by decide) (by decide)
  have hvisible : isVisible c := by
    rw [toList_quote, List.mem_cons, List.mem_append, spelled, List.mem_flatMap,
      List.mem_singleton] at h
    obtain rfl | ⟨d, -, hd⟩ | rfl := h
    · exact hquote
    · exact (spells_quoteCharacter d).visible c hd
    · exact hquote
  refine ⟨hvisible, not_isControl_of_isVisible hvisible, fun hspace => ?_⟩
  by_contra hc
  exact not_isWhitespace_of_isVisible hvisible hc hspace

/-- A quoted text can be told from whatever follows it. -/
theorem quote_append_inj {s t : String} {r r' : List Char}
    (h : (quote s).toList ++ r = (quote t).toList ++ r') : s = t ∧ r = r' := by
  simp only [toList_quote, List.cons_append, List.append_assoc, List.nil_append, List.cons.injEq,
    true_and] at h
  obtain ⟨hs, hr⟩ := spelled_append_inj h
  exact ⟨String.toList_inj.1 hs, hr⟩

/-- Different texts are quoted differently. -/
theorem quote_injective : Function.Injective quote := fun s t h =>
  (@quote_append_inj s t [] [] (by rw [h])).1

end ObjectLisp.Text
