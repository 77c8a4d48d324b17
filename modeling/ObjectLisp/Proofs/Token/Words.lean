import ObjectLisp.Token.Lexer
import ObjectLisp.Proofs.Number.Reading

/-!
# Tokens of a source, piece by piece

`Spans` says which tokens a piece of a source gives, whatever the rest of the source is. Pieces are
put together with `Spans.append`. The pieces are single marks, white space, and words: a word is one
token when a delimiter or the end of the source follows it (`spans_word`).

A word that is no number is a name (`isName`), and the text of a number without an exponent is a
word that is a number (`spans_number`).
-/

namespace ObjectLisp.Lexer

/-! ## Pieces of a source -/

/-- From `p` on, `cs` gives the tokens `ts` and leaves `rest` to begin at `q`. -/
def Spans (p : Position) (cs rest : List Char) (ts : List Token) (q : Position) : Prop :=
  ∀ us, tokensFrom q rest = .ok us → tokensFrom p (cs ++ rest) = .ok (ts ++ us)

/-- Two pieces after each other. -/
theorem Spans.append {p q r : Position} {cs cs' rest : List Char} {ts ts' : List Token}
    (h : Spans p cs (cs' ++ rest) ts q) (h' : Spans q cs' rest ts' r) :
    Spans p (cs ++ cs') rest (ts ++ ts') r := by
  intro us hus
  rw [List.append_assoc, List.append_assoc]
  exact h _ (h' us hus)

/-- A white space character gives no token. -/
theorem spans_whitespace {c : Char} (hc : Text.isWhitespace c = true) (p : Position)
    (rest : List Char) : Spans p [c] rest [] (p.after c) := by
  intro us hus
  rw [List.singleton_append, tokensFrom, if_pos hc]
  exact hus

/-- A parenthesis or a colon is read as a token, whatever comes after it. -/
theorem tokensFrom_mark {c : Char} {kind : TokenKind} (hc : markKind? c = some kind) (p : Position)
    (rest : List Char) :
    tokensFrom p (c :: rest) = (⟨kind, c.toString, p⟩ :: ·) <$> tokensFrom (p.right 1) rest := by
  have hmark : c = '(' ∨ c = ')' ∨ c = ':' := by
    simp only [markKind?] at hc
    grind
  have hspace : ¬ Text.isWhitespace c = true := by
    rcases hmark with rfl | rfl | rfl <;> decide
  have hcomment : ¬ (c == ';') = true := by
    rcases hmark with rfl | rfl | rfl <;> decide
  rw [tokensFrom, if_neg hspace, if_neg hcomment]
  simp only [hc]

/-- A parenthesis or a colon is a token by itself. -/
theorem spans_mark {c : Char} {kind : TokenKind} (hc : markKind? c = some kind) (p : Position)
    (rest : List Char) : Spans p [c] rest [⟨kind, c.toString, p⟩] (p.right 1) := by
  intro us hus
  rw [List.singleton_append, tokensFrom_mark hc, hus]
  rfl

/-- A space before a piece. -/
theorem Spans.space {p q : Position} {cs rest : List Char} {ts : List Token}
    (h : Spans (p.right 1) cs rest ts q) : Spans p (' ' :: cs) rest ts q :=
  (spans_whitespace (by decide) p (cs ++ rest)).append h

/-- An opening parenthesis before a piece. -/
theorem Spans.leftParen {p q : Position} {cs rest : List Char} {ts : List Token}
    (h : Spans (p.right 1) cs rest ts q) :
    Spans p ('(' :: cs) rest (⟨.leftParen, "(", p⟩ :: ts) q :=
  (spans_mark (by decide) p (cs ++ rest)).append h

/-- A closing parenthesis before a piece. -/
theorem Spans.rightParen {p q : Position} {cs rest : List Char} {ts : List Token}
    (h : Spans (p.right 1) cs rest ts q) :
    Spans p (')' :: cs) rest (⟨.rightParen, ")", p⟩ :: ts) q :=
  (spans_mark (by decide) p (cs ++ rest)).append h

/-- Nothing gives no tokens. -/
theorem spans_nil (p : Position) (rest : List Char) : Spans p [] rest [] p := fun _ hus => hus

/-! ## Words -/

/-- Whether a word that stands before the given characters ends there. -/
def endsWord : List Char → Bool
  | [] => true
  | c :: _ => Text.isDelimiter c

/-- Whether characters make up a word that may begin a token. -/
def isWord : List Char → Bool
  | [] => false
  | c :: cs => (c :: cs).all Text.isWordCharacter && !Text.isControl c

/-- Whether a word is a name. The reserved words are names too. -/
def isName (word : List Char) : Bool := isWord word && !startsNumber word

/-- A run of characters of a class is taken as a whole where another character or nothing comes. -/
theorem span_eq_of_append {p : Char → Bool} {cs rest : List Char} (hcs : ∀ c ∈ cs, p c = true)
    (hrest : ∀ c ∈ rest.head?, p c = false) :
    (cs ++ rest).takeWhile p = cs ∧ (cs ++ rest).dropWhile p = rest := by
  rw [List.takeWhile_append_of_pos hcs, List.dropWhile_append_of_pos hcs]
  cases rest with
  | nil => simp
  | cons c rest =>
    have hc : p c = false := hrest c rfl
    simp [hc]

/-- No word goes on where one ends. -/
theorem isWordCharacter_of_endsWord {rest : List Char} (h : endsWord rest = true) :
    ∀ c ∈ rest.head?, Text.isWordCharacter c = false := by
  cases rest with
  | nil => simp
  | cons c rest => simpa [Text.isWordCharacter, endsWord] using h

/-- A word with a delimiter or nothing after it is read as a whole: its kind decides whether it is a
token. -/
theorem tokensFrom_word {w rest : List Char} (hw : isWord w = true) (hrest : endsWord rest = true)
    (p : Position) :
    tokensFrom p (w ++ rest) = match wordKind w with
      | .error fault => .error (.fault p fault)
      | .ok kind => (⟨kind, String.ofList w, p⟩ :: ·) <$> tokensFrom (p.right w.length) rest := by
  cases w with
  | nil => simp [isWord] at hw
  | cons c cs =>
    simp only [isWord, Bool.and_eq_true, List.all_eq_true, Bool.not_eq_true'] at hw
    obtain ⟨hword, hcontrol⟩ := hw
    have hdelimiter : Text.isDelimiter c = false := by
      simpa [Text.isWordCharacter] using hword c List.mem_cons_self
    simp only [Text.isDelimiter, Bool.or_eq_false_iff] at hdelimiter
    obtain ⟨⟨⟨⟨⟨⟨hspace, -⟩, hopen⟩, hclose⟩, hcolon⟩, hcomment⟩, hquote⟩ := hdelimiter
    have hmark : markKind? c = none := by
      simp [markKind?, hopen, hclose, hcolon]
    have hstart : badStart? c = none := by
      simp [badStart?, hquote, hcontrol]
    obtain ⟨htake, hdrop⟩ := span_eq_of_append (fun d hd => hword d (List.mem_cons_of_mem _ hd))
      (isWordCharacter_of_endsWord hrest)
    rw [List.cons_append, tokensFrom, hspace, hcomment]
    simp only [hmark, hstart, htake, hdrop]
    rfl

/-- A word with a delimiter or nothing after it is one token. -/
theorem spans_word {w rest : List Char} {kind : TokenKind} (hw : isWord w = true)
    (hkind : wordKind w = .ok kind) (hrest : endsWord rest = true) (p : Position) :
    Spans p w rest [⟨kind, String.ofList w, p⟩] (p.right w.length) := by
  intro us hus
  rw [tokensFrom_word hw hrest, hkind, hus]
  rfl

/-- The kind of a name. -/
theorem wordKind_name {name : String} (h : isName name.toList = true) :
    wordKind name.toList = .ok (nameKind name) := by
  simp only [isName, Bool.and_eq_true, Bool.not_eq_true'] at h
  simp [wordKind, h.2]

/-- A name with a delimiter or nothing after it is one token. -/
theorem spans_name {name : String} {rest : List Char} (hname : isName name.toList = true)
    (hrest : endsWord rest = true) (p : Position) :
    Spans p name.toList rest [⟨nameKind name, name, p⟩] (p.right name.toList.length) := by
  have hword : isWord name.toList = true := (Bool.and_eq_true _ _ ▸ hname).1
  have hspans := spans_word hword (wordKind_name hname) hrest p
  rwa [String.ofList_toList] at hspans

/-- A name and a space before a piece. -/
theorem Spans.name {name : String} {p q : Position} {cs rest : List Char} {ts : List Token}
    (h : Spans ((p.right name.toList.length).right 1) cs rest ts q)
    (hname : isName name.toList = true) :
    Spans p (name.toList ++ ' ' :: cs) rest (⟨nameKind name, name, p⟩ :: ts) q :=
  (spans_name hname rfl p).append h.space

/-! ## Numbers -/

/-- A digit is one of ten characters. -/
theorem mem_digits_of_isDigit {c : Char} (h : c.isDigit = true) :
    c ∈ ['0', '1', '2', '3', '4', '5', '6', '7', '8', '9'] := by
  simp only [Char.isDigit, Bool.and_eq_true, decide_eq_true_eq] at h
  have hlow : 48 ≤ c.toNat := UInt32.le_iff_toNat_le.1 h.1
  have hhigh : c.toNat ≤ 57 := UInt32.le_iff_toNat_le.1 h.2
  rw [← Char.ofNat_toNat c]
  interval_cases c.toNat <;> decide

/-- Digits, points and the minus sign are part of words and no control characters. -/
theorem isWordCharacter_of_numeral {c : Char} (h : c.isDigit = true ∨ c = '.' ∨ c = '-') :
    Text.isWordCharacter c = true ∧ Text.isControl c = false := by
  have hdigits : ['0', '1', '2', '3', '4', '5', '6', '7', '8', '9'].all
      (fun c => Text.isWordCharacter c && !Text.isControl c) = true := by decide
  rcases h with h | rfl | rfl
  · simpa using List.all_eq_true.1 hdigits c (mem_digits_of_isDigit h)
  · decide
  · decide

/-- What reads as a number, with or without a sign, begins as a number and is a word. -/
theorem numeral_of_ofChars? {cs : List Char} {x : Float} (h : Number.ofChars? cs = some x) :
    startsNumber cs = true ∧ cs ≠ [] ∧ ∀ c ∈ cs, c.isDigit = true ∨ c = '.' ∨ c = '-' := by
  unfold Number.ofChars? at h
  split at h
  · next cs =>
    obtain ⟨d, hd, -⟩ := Option.map_eq_some_iff.1 h
    obtain ⟨⟨c, rest, rfl, hc⟩, hall⟩ := (Number.Decimal.numeral_of_ofChars? hd).chars
    refine ⟨hc, List.cons_ne_nil _ _, fun a ha => ?_⟩
    rcases List.mem_cons.1 ha with rfl | ha
    · exact .inr (.inr rfl)
    · exact (hall a ha).imp_right .inl
  · next hminus =>
    obtain ⟨d, hd, -⟩ := Option.map_eq_some_iff.1 h
    obtain ⟨⟨c, rest, rfl, hc⟩, hall⟩ := (Number.Decimal.numeral_of_ofChars? hd).chars
    refine ⟨?_, List.cons_ne_nil _ _, fun a ha => (hall a ha).imp_right .inl⟩
    unfold startsNumber
    split
    · next heq => exact absurd heq (hminus _)
    · next heq =>
      obtain ⟨rfl, -⟩ := List.cons.inj heq
      exact hc
    · next heq => exact absurd heq (List.cons_ne_nil _ _)

/-- What reads as a number is a word, and its kind is this number. -/
theorem isWord_of_ofChars? {cs : List Char} {x : Float} (h : Number.ofChars? cs = some x) :
    isWord cs = true ∧ wordKind cs = .ok (.number x) := by
  obtain ⟨hstarts, hne, hall⟩ := numeral_of_ofChars? h
  constructor
  · obtain ⟨c, rest, rfl⟩ := List.exists_cons_of_ne_nil hne
    simp only [isWord, Bool.and_eq_true, List.all_eq_true, Bool.not_eq_true']
    exact ⟨fun a ha => (isWordCharacter_of_numeral (hall a ha)).1,
      (isWordCharacter_of_numeral (hall c List.mem_cons_self)).2⟩
  · simp only [wordKind, hstarts, if_true, h]

/-- The text of a number without an exponent, with a delimiter or nothing after it, is one token and
gives an equal number. -/
theorem spans_number {x : Float} {rest : List Char} (hx : Number.isPositional x = true)
    (hrest : endsWord rest = true) (p : Position) :
    ∃ y, (y == x) = true ∧
      Spans p (Number.text x).toList rest [⟨.number y, Number.text x, p⟩]
        (p.right (Number.text x).toList.length) := by
  obtain ⟨y, hread, heq⟩ := Number.ofChars?_text hx
  obtain ⟨hword, hkind⟩ := isWord_of_ofChars? hread
  have hspans := spans_word hword hkind hrest p
  rw [String.ofList_toList] at hspans
  exact ⟨y, heq, hspans⟩

end ObjectLisp.Lexer
