import ObjectLisp.Proofs.Token.Position
import ObjectLisp.Proofs.Token.Words

/-!
# The layout of a source

A source that can be tokenized is a `Layout`: the text of each token, and around these texts gaps of
white space and comments. Conversely the tokens of a layout are the ones its texts stand for, and a
source is a layout in one way only, so nothing of it is lost or counted twice.

A gap and the texts of tokens are described without the lexer. A comment runs to the end of its line
(`IsGap`), a mark is a token wherever it stands (`IsMark`), and a number or a name is one if a gap,
a mark or the end of the source comes after it (`IsWordOf`, `endsToken`).
-/

namespace ObjectLisp.Lexer

/-! ## Gaps -/

/-- Whether a comment that stands before the given characters ends there. -/
def endsComment : List Char → Bool
  | [] => true
  | c :: _ => c == '\n'

/-- White space and comments, with `rest` after them. -/
inductive IsGap (rest : List Char) : List Char → Prop
  | nil : IsGap rest []
  | whitespace {c : Char} {cs : List Char} (hc : Text.isWhitespace c = true) (h : IsGap rest cs) :
      IsGap rest (c :: cs)
  | comment {text cs : List Char} (htext : '\n' ∉ text) (hend : endsComment (cs ++ rest) = true)
      (h : IsGap rest cs) : IsGap rest (';' :: (text ++ cs))

/-! ## Texts of tokens -/

/-- The tokens of one character. -/
inductive IsMark : List Char → TokenKind → Prop
  | leftParen : IsMark ['('] .leftParen
  | rightParen : IsMark [')'] .rightParen
  | colon : IsMark [':'] .colon

/-- The texts that may be names. The reserved words are among them. -/
structure IsIdentifier (cs : List Char) : Prop where
  nonempty : cs ≠ []
  characters : ∀ c ∈ cs,
    Text.isWhitespace c = false ∧ c ∉ ['\x00', '(', ')', ':', ';', '"']
  first : ∀ c ∈ cs.head?, c.isDigit = false ∧ Text.isControl c = false
  minus : ∀ c rest, cs = '-' :: c :: rest → c.isDigit = false

/-- The numbers, the reserved words and the names. -/
inductive IsWordOf : List Char → TokenKind → Prop
  | number {cs : List Char} {d : Number.Decimal} (negative : Bool)
      (h : Number.Decimal.Numeral cs d) :
      IsWordOf ((if negative then "-" else "").toList ++ cs) (.number (d.toFloat negative))
  | bool (b : Bool) : IsWordOf (if b then "true" else "false").toList (.bool b)
  | null : IsWordOf "null".toList .null
  | name {cs : List Char} (h : IsIdentifier cs)
      (hfree : String.ofList cs ∉ ["true", "false", "null"]) :
      IsWordOf cs (.identifier (String.ofList cs))

/-- Whether a number or a name that stands before the given characters may end there. -/
def endsToken : List Char → Bool
  | [] => true
  | c :: _ => Text.isWhitespace c || c == '(' || c == ')' || c == ':' || c == ';'

/-! ## Layouts -/

/-- The text of a token, its kind, and the gap after it. -/
structure Piece where
  lexeme : List Char
  kind : TokenKind
  gap : List Char

/-- The text of pieces one after another. -/
def piecesText : List Piece → List Char
  | [] => []
  | p :: ps => p.lexeme ++ (p.gap ++ piecesText ps)

/-- Each piece has the text of a token that ends where its gap begins. -/
inductive ArePieces : List Piece → Prop
  | nil : ArePieces []
  | mark {p : Piece} {ps : List Piece} (hp : IsMark p.lexeme p.kind)
      (hgap : IsGap (piecesText ps) p.gap) (hps : ArePieces ps) : ArePieces (p :: ps)
  | word {p : Piece} {ps : List Piece} (hp : IsWordOf p.lexeme p.kind)
      (hend : endsToken (p.gap ++ piecesText ps) = true) (hgap : IsGap (piecesText ps) p.gap)
      (hps : ArePieces ps) : ArePieces (p :: ps)

/-- A source taken apart: the gap before the first token, and the tokens with the gaps after
them. -/
structure Layout where
  lead : List Char
  pieces : List Piece

/-- The characters of the source. -/
def Layout.source (l : Layout) : List Char := l.lead ++ piecesText l.pieces

/-- The gaps are gaps, and the pieces are tokens. -/
structure Layout.IsValid (l : Layout) : Prop where
  lead : IsGap (piecesText l.pieces) l.lead
  pieces : ArePieces l.pieces

/-- The kind and the text of a piece's token. -/
def Piece.content (p : Piece) : TokenKind × String := (p.kind, String.ofList p.lexeme)

/-- The kind and the text of a token. -/
def tokenContent (t : Token) : TokenKind × String := (t.kind, t.lexeme)

/-! ## Layouts up to a place -/

/-- The text of a token that ends where `rest` begins. -/
inductive IsToken (rest : List Char) : List Char → TokenKind → Prop
  | mark {w : List Char} {kind : TokenKind} (h : IsMark w kind) : IsToken rest w kind
  | word {w : List Char} {kind : TokenKind} (h : IsWordOf w kind) (hend : endsWord rest = true) :
      IsToken rest w kind

/-- Each piece has the text of a token that ends where its gap begins, when `rest` comes after the
pieces. -/
inductive ArePiecesBefore (rest : List Char) : List Piece → Prop
  | nil : ArePiecesBefore rest []
  | cons {p : Piece} {ps : List Piece}
      (hp : IsToken (p.gap ++ (piecesText ps ++ rest)) p.lexeme p.kind)
      (hgap : IsGap (piecesText ps ++ rest) p.gap) (hps : ArePiecesBefore rest ps) :
      ArePiecesBefore rest (p :: ps)

/-- The layout is that of a source up to `rest`. -/
structure Layout.Precedes (l : Layout) (rest : List Char) : Prop where
  lead : IsGap (piecesText l.pieces ++ rest) l.lead
  pieces : ArePiecesBefore rest l.pieces

/-- The texts that are refused where a token has to begin and `rest` comes after them: characters
that begin no token, and words that begin as numbers and are none. -/
inductive IsRefused (rest : List Char) : List Char → Fault → Prop
  | quote : IsRefused rest ['"'] .stringLiteral
  | control {c : Char} (hcontrol : Text.isControl c = true) (hspace : Text.isWhitespace c = false) :
      IsRefused rest [c] (.unexpectedCharacter c)
  | number {w : List Char} (hword : isWord w = true) (hend : endsWord rest = true)
      (hform : ∀ kind, ¬ IsWordOf w kind) : IsRefused rest w (.malformedNumber (String.ofList w))

/-- The tokens of pieces, the first of which begins at `p`. -/
def piecesTokens (p : Position) : List Piece → List Token
  | [] => []
  | piece :: ps =>
    ⟨piece.kind, String.ofList piece.lexeme, p⟩
      :: piecesTokens (p.afterAll (piece.lexeme ++ piece.gap)) ps

/-- The tokens of a layout that begins at `p`. -/
def Layout.tokens (p : Position) (l : Layout) : List Token :=
  piecesTokens (p.afterAll l.lead) l.pieces

/-! ## Numbers and words -/

/-- A word begins with no digit, and with no minus sign before a digit, if it is no number. -/
theorem startsNumber_eq_false_iff {c : Char} {cs : List Char} :
    startsNumber (c :: cs) = false
      ↔ c.isDigit = false ∧ ∀ d rest, c :: cs = '-' :: d :: rest → d.isDigit = false := by
  unfold startsNumber
  split
  · next d rest heq =>
    cases heq
    refine ⟨fun h => ⟨by decide, ?_⟩, fun h => h.2 d rest rfl⟩
    rintro _ _ ⟨⟩
    exact h
  · next hminus heq =>
    cases heq
    refine ⟨fun h => ⟨h, ?_⟩, fun h => h.1⟩
    rintro d rest ⟨⟩
    exact absurd rfl (hminus d rest rfl)
  · next heq => nomatch heq

/-- The texts that may be names are the names of the lexer. -/
theorem isIdentifier_iff {cs : List Char} : IsIdentifier cs ↔ isName cs = true := by
  have hclass : ∀ c, Text.isWordCharacter c = true
      ↔ Text.isWhitespace c = false ∧ c ∉ ['\x00', '(', ')', ':', ';', '"'] := by
    intro c
    simp [Text.isWordCharacter, Text.isDelimiter, and_assoc]
  cases cs with
  | nil => exact ⟨fun h => absurd rfl h.nonempty, fun h => absurd h (by decide)⟩
  | cons c cs =>
    simp only [isName, isWord, Bool.and_eq_true, List.all_eq_true, Bool.not_eq_true', hclass,
      startsNumber_eq_false_iff]
    -- Both sides ask the same of the characters, of the first one and of a minus sign at the front.
    constructor
    · intro h
      obtain ⟨hdigit, hcontrol⟩ := h.first c rfl
      exact ⟨⟨h.characters, hcontrol⟩, hdigit, h.minus⟩
    · rintro ⟨⟨hcharacters, hcontrol⟩, hdigit, hminus⟩
      refine ⟨List.cons_ne_nil c cs, hcharacters, ?_, hminus⟩
      rintro _ ⟨⟩
      exact ⟨hdigit, hcontrol⟩

/-- The kind of a name is a reserved word or the name itself. -/
theorem isWordOf_name {w : List Char} (h : IsIdentifier w) :
    IsWordOf w (nameKind (String.ofList w)) := by
  have hchars : ∀ {word : String}, String.ofList w = word → w = word.toList := by
    rintro word rfl
    rw [String.toList_ofList]
  unfold nameKind
  split
  · next heq => exact hchars heq ▸ .bool true
  · split
    · next heq => exact hchars heq ▸ .bool false
    · split
      · next heq => exact hchars heq ▸ .null
      · next htrue hfalse hnull => exact .name h (by simp [htrue, hfalse, hnull])

/-- The numbers, the reserved words and the names are the words that have a kind. -/
theorem isWordOf_iff {w : List Char} {kind : TokenKind} :
    IsWordOf w kind ↔ isWord w = true ∧ wordKind w = .ok kind := by
  constructor
  · intro h
    cases h with
    | number negative h =>
      exact isWord_of_ofChars?
        (Number.ofChars?_signed (Number.Decimal.ofChars?_eq_some_iff.2 h) negative)
    | bool b => cases b <;> decide
    | null => decide
    | name h hfree =>
      simp only [isIdentifier_iff, isName, Bool.and_eq_true, Bool.not_eq_true'] at h
      simp only [List.mem_cons, List.not_mem_nil, or_false, not_or] at hfree
      refine ⟨h.1, ?_⟩
      simp [wordKind, h.2, nameKind, hfree]
  · rintro ⟨hword, hkind⟩
    -- A word that starts like a number is one or is refused; any other is a name, reserved or free.
    unfold wordKind at hkind
    split at hkind
    · split at hkind
      · next x hx =>
        cases hkind
        unfold Number.ofChars? at hx
        split at hx
        · obtain ⟨d, hd, rfl⟩ := Option.map_eq_some_iff.1 hx
          exact .number true (Number.Decimal.numeral_of_ofChars? hd)
        · obtain ⟨d, hd, rfl⟩ := Option.map_eq_some_iff.1 hx
          exact .number false (Number.Decimal.numeral_of_ofChars? hd)
      · cases hkind
    · next hstarts =>
      cases hkind
      exact isWordOf_name (isIdentifier_iff.2 (by simp [isName, hword, hstarts]))

/-- The tokens of one character are the marks of the lexer. -/
theorem isMark_iff {w : List Char} {kind : TokenKind} :
    IsMark w kind ↔ ∃ c, w = [c] ∧ markKind? c = some kind := by
  constructor
  · intro h
    cases h with
    | leftParen => exact ⟨'(', rfl, rfl⟩
    | rightParen => exact ⟨')', rfl, rfl⟩
    | colon => exact ⟨':', rfl, rfl⟩
  · rintro ⟨c, rfl, hc⟩
    -- The three marks are tried one after another.
    unfold markKind? at hc
    split at hc
    · next heq =>
      cases hc
      exact beq_iff_eq.1 heq ▸ .leftParen
    · split at hc
      · next heq =>
        cases hc
        exact beq_iff_eq.1 heq ▸ .rightParen
      · split at hc
        · next heq =>
          cases hc
          exact beq_iff_eq.1 heq ▸ .colon
        · nomatch hc

/-- A mark is one of three characters. -/
theorem IsMark.exists_singleton {w : List Char} {kind : TokenKind} (h : IsMark w kind) :
    ∃ c ∈ ['(', ')', ':'], w = [c] := by
  cases h with
  | leftParen => exact ⟨'(', by simp, rfl⟩
  | rightParen => exact ⟨')', by simp, rfl⟩
  | colon => exact ⟨':', by simp, rfl⟩

/-! ## Tokens of layouts -/

/-- A comment is taken as a whole. -/
theorem span_comment {text rest : List Char} (htext : '\n' ∉ text)
    (hend : endsComment rest = true) :
    (text ++ rest).takeWhile inComment = text ∧ (text ++ rest).dropWhile inComment = rest := by
  have hinside : ∀ c ∈ text, inComment c = true := by
    intro c hc
    simp only [inComment, bne_iff_ne]
    rintro rfl
    exact htext hc
  have hstop : ∀ c ∈ rest.head?, inComment c = false := by
    cases rest with
    | nil => simp
    | cons c rest => simpa [inComment, endsComment] using hend
  exact span_eq_of_append hinside hstop

/-- A comment is passed over. -/
theorem tokensFrom_comment {text rest : List Char} (htext : '\n' ∉ text)
    (hend : endsComment rest = true) (p : Position) :
    tokensFrom p (';' :: (text ++ rest)) = tokensFrom (p.right (1 + text.length)) rest := by
  obtain ⟨htake, hdrop⟩ := span_comment htext hend
  rw [tokensFrom, if_neg (by decide), if_pos (by decide), htake, hdrop]

/-- A comment gives no token. -/
theorem spans_comment {text rest : List Char} (htext : '\n' ∉ text)
    (hend : endsComment rest = true) (p : Position) :
    Spans p (';' :: text) rest [] (p.right (1 + text.length)) := by
  intro us hus
  rw [List.cons_append, tokensFrom_comment htext hend]
  exact hus

/-- A gap is passed over. -/
theorem IsGap.tokensFrom_eq {rest gap : List Char} (h : IsGap rest gap) (p : Position) :
    tokensFrom p (gap ++ rest) = tokensFrom (p.afterAll gap) rest := by
  induction h generalizing p with
  | nil => rfl
  | whitespace hc _ ih => rw [List.cons_append, tokensFrom, if_pos hc, ih, p.afterAll_cons]
  | @comment text cs htext hend _ ih =>
    have hline : '\n' ∉ ';' :: text := by simpa using htext
    have hplace : p.afterAll (';' :: text) = p.right (1 + text.length) := by
      rw [Position.afterAll_eq_right hline, List.length_cons, Nat.add_comm]
    rw [List.cons_append, List.append_assoc, tokensFrom_comment htext hend, ih, ← hplace,
      ← Position.afterAll_append, List.cons_append]

/-- Where a token may end, a word does. -/
theorem endsWord_of_endsToken {rest : List Char} (h : endsToken rest = true) :
    endsWord rest = true := by
  cases rest with
  | nil => rfl
  | cons c rest =>
    simp only [endsToken, Bool.or_eq_true] at h
    simp only [endsWord, Text.isDelimiter, Bool.or_eq_true]
    tauto

/-- The characters of a word are part of words. -/
theorem isWordCharacter_of_isWord {w : List Char} (h : isWord w = true) :
    ∀ c ∈ w, Text.isWordCharacter c = true := by
  cases w with
  | nil => simp
  | cons c cs =>
    simp only [isWord, Bool.and_eq_true, List.all_eq_true] at h
    exact h.1

/-- A word is on one line. -/
theorem afterAll_of_isWord {w : List Char} (h : isWord w = true) (p : Position) :
    p.afterAll w = p.right w.length :=
  Position.afterAll_eq_right (fun hmem => absurd (isWordCharacter_of_isWord h _ hmem) (by decide)) p

/-- The text of a token is read as one, and reading goes on after it. -/
theorem IsToken.tokensFrom_eq {w rest : List Char} {kind : TokenKind} (h : IsToken rest w kind)
    (p : Position) : tokensFrom p (w ++ rest)
      = (⟨kind, String.ofList w, p⟩ :: ·) <$> tokensFrom (p.afterAll w) rest := by
  cases h with
  | mark h =>
    obtain ⟨c, rfl, hc⟩ := isMark_iff.1 h
    have hplace : p.after c = p.right 1 := by
      refine Position.after_of_ne ?_ p
      rintro rfl
      nomatch hc
    rw [List.singleton_append, tokensFrom_mark hc, p.afterAll_cons, Position.afterAll_nil, hplace]
    rfl
  | word h hend =>
    obtain ⟨hword, hkind⟩ := isWordOf_iff.1 h
    rw [tokensFrom_word hword hend, hkind, afterAll_of_isWord hword]

/-- Pieces are read as their tokens, and reading goes on after them. -/
theorem ArePiecesBefore.tokensFrom_eq {rest : List Char} {ps : List Piece}
    (h : ArePiecesBefore rest ps) (p : Position) : tokensFrom p (piecesText ps ++ rest)
      = (piecesTokens p ps ++ ·) <$> tokensFrom (p.afterAll (piecesText ps)) rest := by
  induction h generalizing p with
  | nil =>
    rw [piecesText, piecesTokens, List.nil_append, Position.afterAll_nil]
    cases tokensFrom p rest <;> rfl
  | cons hp hgap _ ih =>
    rw [piecesText, List.append_assoc, List.append_assoc, hp.tokensFrom_eq, hgap.tokensFrom_eq, ih,
      piecesTokens, Position.afterAll_append, Position.afterAll_append, Position.afterAll_append]
    cases tokensFrom _ rest <;> rfl

/-- A layout is read as its tokens, and reading goes on after it. -/
theorem Layout.Precedes.tokensFrom_eq {l : Layout} {rest : List Char} (h : l.Precedes rest)
    (p : Position) : tokensFrom p (l.source ++ rest)
      = (l.tokens p ++ ·) <$> tokensFrom (p.afterAll l.source) rest := by
  rw [Layout.source, List.append_assoc, h.lead.tokensFrom_eq, h.pieces.tokensFrom_eq,
    ← Position.afterAll_append]
  rfl

/-- Pieces to the end of a source are pieces before nothing. -/
theorem ArePieces.arePiecesBefore {ps : List Piece} (h : ArePieces ps) : ArePiecesBefore [] ps := by
  induction h with
  | nil => exact .nil
  | mark hp hgap _ ih => exact .cons (.mark hp) (by rwa [List.append_nil]) ih
  | word hp hend hgap _ ih =>
    rw [← List.append_nil (piecesText _)] at hend hgap
    exact .cons (.word hp (endsWord_of_endsToken hend)) hgap ih

/-- A valid layout of a source precedes nothing. -/
theorem Layout.IsValid.precedes {l : Layout} (h : l.IsValid) : l.Precedes [] where
  lead := by
    rw [List.append_nil]
    exact h.lead
  pieces := h.pieces.arePiecesBefore

/-- A layout that is a whole source is read as its tokens and the end of the input. -/
theorem Layout.IsValid.tokensFrom_eq {l : Layout} (h : l.IsValid) (p : Position) :
    tokensFrom p l.source = .ok (l.tokens p ++ [⟨.endOfInput, "", p.afterAll l.source⟩]) := by
  have hread := h.precedes.tokensFrom_eq p
  rwa [List.append_nil, tokensFrom] at hread

/-- The tokens of some pieces have their contents. -/
theorem map_tokenContent_piecesTokens (p : Position) (ps : List Piece) :
    (piecesTokens p ps).map tokenContent = ps.map Piece.content := by
  induction ps generalizing p with
  | nil => rfl
  | cons piece ps ih =>
    rw [piecesTokens, List.map_cons, List.map_cons, ih]
    rfl

/-- A layout gives the tokens of its pieces and the end of the input. -/
theorem Layout.IsValid.exists_tokens {l : Layout} (h : l.IsValid) (p : Position) :
    ∃ us, tokensFrom p l.source = .ok us
      ∧ us.map tokenContent = l.pieces.map Piece.content ++ [(.endOfInput, "")] := by
  refine ⟨_, h.tokensFrom_eq p, ?_⟩
  rw [List.map_append, Layout.tokens, map_tokenContent_piecesTokens]
  rfl

/-! ## Layouts of sources -/

/-- A character that begins neither a gap nor a mark nor a fault is part of a word. -/
theorem isWordCharacter_of_start {c : Char} (hspace : ¬ Text.isWhitespace c = true)
    (hcomment : ¬ (c == ';') = true) (hmark : markKind? c = none) (hstart : badStart? c = none) :
    Text.isWordCharacter c = true ∧ Text.isControl c = false := by
  have hquote : ¬ (c == '"') = true := by
    intro h
    simp [badStart?, h] at hstart
  have hcontrol : Text.isControl c = false := by
    simpa [badStart?, hquote] using hstart
  have hnul : ¬ (c == '\x00') = true := by
    intro h
    rw [beq_iff_eq.1 h] at hcontrol
    exact absurd hcontrol (by decide)
  have hmarks : ¬ (c == '(') = true ∧ ¬ (c == ')') = true ∧ ¬ (c == ':') = true := by
    refine ⟨?_, ?_, ?_⟩ <;> intro h <;> rw [beq_iff_eq.1 h] at hmark <;>
      exact absurd hmark (by decide)
  refine ⟨?_, hcontrol⟩
  simp [Text.isWordCharacter, Text.isDelimiter, hspace, hcomment, hquote, hnul, hmarks]

/-- A number or a name begins with a character of words. -/
theorem IsWordOf.exists_cons {w : List Char} {kind : TokenKind} (h : IsWordOf w kind) :
    ∃ c cs, w = c :: cs ∧ Text.isWordCharacter c = true := by
  obtain ⟨hword, -⟩ := isWordOf_iff.1 h
  cases w with
  | nil => nomatch hword
  | cons c cs => exact ⟨c, cs, rfl, isWordCharacter_of_isWord hword c List.mem_cons_self⟩

/-- Where a word ends in a layout, a gap or a mark comes or the end. -/
theorem Layout.IsValid.endsToken {l : Layout} (h : l.IsValid) (hend : endsWord l.source = true) :
    endsToken l.source = true := by
  obtain ⟨lead, pieces⟩ := l
  obtain ⟨hlead, hpieces⟩ := h
  simp only [Layout.source] at hend hlead hpieces ⊢
  -- What stands first decides: a gap or a mark ends a token, and a word does not end one before it.
  cases hlead with
  | whitespace hc _ => simp [Lexer.endsToken, hc]
  | comment => simp [Lexer.endsToken]
  | nil =>
    cases hpieces with
    | nil => rfl
    | mark hp =>
      obtain ⟨c, hc, hlexeme⟩ := hp.exists_singleton
      fin_cases hc <;> simp only [piecesText, hlexeme] <;> rfl
    | @word p ps hp =>
      obtain ⟨c, cs, hlexeme, hc⟩ := hp.exists_cons
      simp [piecesText, hlexeme, endsWord] at hend
      simp [Text.isWordCharacter, hend] at hc

/-- What follows a word that was taken whole ends it. -/
theorem endsWord_dropWhile (cs : List Char) :
    endsWord (cs.dropWhile Text.isWordCharacter) = true := by
  cases hdrop : cs.dropWhile Text.isWordCharacter with
  | nil => rfl
  | cons c rest =>
    have hne : cs.dropWhile Text.isWordCharacter ≠ [] := by simp [hdrop]
    have hc := List.head_dropWhile_not Text.isWordCharacter hne
    simpa [hdrop, Text.isWordCharacter, endsWord] using hc

/-- What is left after a comment ends it. -/
theorem endsComment_dropWhile (cs : List Char) : endsComment (cs.dropWhile inComment) = true := by
  cases hdrop : cs.dropWhile inComment with
  | nil => rfl
  | cons c rest =>
    have hne : cs.dropWhile inComment ≠ [] := by simp [hdrop]
    have hc := List.head_dropWhile_not inComment hne
    simpa [hdrop, inComment, endsComment] using hc

/-- A word is one if it begins as one and goes on with characters of words. -/
theorem isWord_takeWhile {c : Char} (hword : Text.isWordCharacter c = true)
    (hcontrol : Text.isControl c = false) (cs : List Char) :
    isWord (c :: cs.takeWhile Text.isWordCharacter) = true := by
  simp only [isWord, Bool.and_eq_true, List.all_eq_true, Bool.not_eq_true']
  refine ⟨fun d hd => ?_, hcontrol⟩
  rcases List.mem_cons.1 hd with rfl | hd
  · exact hword
  · exact List.all_eq_true.1 List.all_takeWhile d hd

/-- A function of a result succeeds only where the result does. -/
theorem exists_of_map_eq_ok {ε α β : Type} {f : α → β} {x : Except ε α} {b : β}
    (h : f <$> x = .ok b) : ∃ a, x = .ok a ∧ f a = b := by
  cases x with
  | error e => nomatch h
  | ok a => exact ⟨a, rfl, Except.ok.inj h⟩

/-- A word has a kind unless it is a malformed number. -/
theorem eq_malformedNumber_of_wordKind {w : List Char} {fault : Fault}
    (h : wordKind w = .error fault) : fault = .malformedNumber (String.ofList w) := by
  unfold wordKind at h
  split at h
  · split at h
    · nomatch h
    · exact (Except.error.inj h).symm
  · nomatch h

/-- Reading fails at a text that is refused. -/
theorem IsRefused.tokensFrom_eq {w rest : List Char} {fault : Fault} (h : IsRefused rest w fault)
    (p : Position) : tokensFrom p (w ++ rest) = .error (.fault p fault) := by
  cases h with
  | quote =>
    rw [List.singleton_append, tokensFrom, if_neg (by decide), if_neg (by decide)]
    rfl
  | @control c hcontrol hspace =>
    -- None of the characters with a meaning is a control character.
    have hne (d : Char) (hd : Text.isControl d = false) : (c == d) = false := by
      rw [beq_eq_false_iff_ne]
      rintro rfl
      exact Bool.false_ne_true (hd.symm.trans hcontrol)
    have hmark : markKind? c = none := by
      simp [markKind?, hne '(' (by decide), hne ')' (by decide), hne ':' (by decide)]
    have hstart : badStart? c = some (.unexpectedCharacter c) := by
      simp [badStart?, hne '"' (by decide), hcontrol]
    rw [List.singleton_append, tokensFrom, hspace, hne ';' (by decide)]
    simp only [hmark, hstart, Bool.false_eq_true, if_false]
  | number hword hend hform =>
    cases hkind : wordKind w with
    | ok kind => exact absurd (isWordOf_iff.2 ⟨hword, hkind⟩) (hform kind)
    | error fault =>
      cases eq_malformedNumber_of_wordKind hkind
      rw [tokensFrom_word hword hend, hkind]

/-- Every source is a layout up to its end, or up to a text that is refused. -/
theorem exists_precedes (cs : List Char) :
    ∃ (l : Layout) (rest : List Char), l.Precedes rest ∧ l.source ++ rest = cs
      ∧ (rest = [] ∨ ∃ w after fault, rest = w ++ after ∧ IsRefused after w fault) := by
  -- White space and comments go into the gap before the layout of the rest. A token takes that gap
  -- as the one after it and leaves an empty gap in front.
  induction Position.start, cs using tokensFrom.induct with
  | case1 => exact ⟨⟨[], []⟩, [], ⟨.nil, .nil⟩, rfl, .inl rfl⟩
  | case2 p c cs hspace ih =>
    obtain ⟨l, rest, hl, rfl, hrest⟩ := ih
    exact ⟨⟨c :: l.lead, l.pieces⟩, rest, ⟨.whitespace hspace hl.lead, hl.pieces⟩, rfl, hrest⟩
  | case3 p c cs _ hcomment ih =>
    obtain rfl := beq_iff_eq.1 hcomment
    obtain ⟨l, rest, hl, hsource, hrest⟩ := ih
    have htext : '\n' ∉ cs.takeWhile inComment := by
      intro hmem
      exact absurd (List.all_eq_true.1 List.all_takeWhile _ hmem) (by decide)
    have hend : endsComment (l.lead ++ (piecesText l.pieces ++ rest)) = true := by
      have hdrop := endsComment_dropWhile cs
      rwa [← hsource, Layout.source, List.append_assoc] at hdrop
    refine ⟨⟨';' :: (cs.takeWhile inComment ++ l.lead), l.pieces⟩, rest,
      ⟨.comment htext hend hl.lead, hl.pieces⟩, ?_, hrest⟩
    calc ';' :: (cs.takeWhile inComment ++ l.lead) ++ piecesText l.pieces ++ rest
      _ = ';' :: (cs.takeWhile inComment ++ (l.source ++ rest)) := by simp [Layout.source]
      _ = ';' :: cs := by rw [hsource, List.takeWhile_append_dropWhile]
  | case4 p c cs _ _ kind hmark ih =>
    obtain ⟨l, rest, hl, rfl, hrest⟩ := ih
    refine ⟨⟨[], ⟨[c], kind, l.lead⟩ :: l.pieces⟩, rest,
      ⟨.nil, .cons (.mark (isMark_iff.2 ⟨c, rfl, hmark⟩)) hl.lead hl.pieces⟩, rfl, hrest⟩
  | case5 p c cs hspace _ _ fault hfault =>
    refine ⟨⟨[], []⟩, c :: cs, ⟨.nil, .nil⟩, rfl, .inr ⟨[c], cs, fault, rfl, ?_⟩⟩
    unfold badStart? at hfault
    split at hfault
    · next hquote =>
      cases hfault
      exact beq_iff_eq.1 hquote ▸ .quote
    · split at hfault
      · next hcontrol =>
        cases hfault
        exact .control hcontrol (Bool.eq_false_of_not_eq_true hspace)
      · nomatch hfault
  | case6 p c cs hspace hcomment hmark hstart word fault hfault =>
    obtain ⟨hcharacter, hcontrol⟩ := isWordCharacter_of_start hspace hcomment hmark hstart
    refine ⟨⟨[], []⟩, c :: cs, ⟨.nil, .nil⟩, rfl,
      .inr ⟨word, cs.dropWhile Text.isWordCharacter, fault, ?_, ?_⟩⟩
    · exact congrArg (c :: ·) List.takeWhile_append_dropWhile.symm
    · cases eq_malformedNumber_of_wordKind hfault
      refine .number (isWord_takeWhile hcharacter hcontrol cs) (endsWord_dropWhile cs) ?_
      intro kind hword
      nomatch hfault.symm.trans (isWordOf_iff.1 hword).2
  | case7 p c cs hspace hcomment hmark hstart word kind hkind =>
    rename_i ih
    obtain ⟨l, rest, hl, hsource, hrest⟩ := ih
    obtain ⟨hcharacter, hcontrol⟩ := isWordCharacter_of_start hspace hcomment hmark hstart
    have hword : IsWordOf word kind :=
      isWordOf_iff.2 ⟨isWord_takeWhile hcharacter hcontrol cs, hkind⟩
    have hend : endsWord (l.lead ++ (piecesText l.pieces ++ rest)) = true := by
      have hdrop := endsWord_dropWhile cs
      rwa [← hsource, Layout.source, List.append_assoc] at hdrop
    refine ⟨⟨[], ⟨word, kind, l.lead⟩ :: l.pieces⟩, rest,
      ⟨.nil, .cons (.word hword hend) hl.lead hl.pieces⟩, ?_, hrest⟩
    calc word ++ l.source ++ rest
      _ = c :: (cs.takeWhile Text.isWordCharacter ++ cs.dropWhile Text.isWordCharacter) := by
        rw [List.append_assoc, hsource]
        rfl
      _ = c :: cs := by rw [List.takeWhile_append_dropWhile]

/-- A word that ends a source might end at a NUL or a quote, but these begin no layout. -/
theorem Layout.Precedes.isValid {l : Layout} (h : l.Precedes []) : l.IsValid := by
  obtain ⟨lead, pieces⟩ := l
  obtain ⟨hlead, hpieces⟩ := h
  simp only [List.append_nil] at hlead hpieces
  refine ⟨hlead, ?_⟩
  clear hlead
  induction hpieces with
  | nil => exact .nil
  | @cons p ps hp hgap _ ih =>
    rw [List.append_nil] at hp hgap
    have hrest : Layout.IsValid ⟨p.gap, ps⟩ := ⟨hgap, ih⟩
    cases hp with
    | mark hp => exact .mark hp hgap ih
    | word hp hend => exact .word hp (hrest.endsToken hend) hgap ih

/-- Every source that has tokens has a layout with these tokens. -/
theorem exists_layout_of_tokensFrom {p : Position} {cs : List Char} {us : List Token}
    (h : tokensFrom p cs = .ok us) :
    ∃ l : Layout, l.IsValid ∧ l.source = cs
      ∧ us.map tokenContent = l.pieces.map Piece.content ++ [(.endOfInput, "")] := by
  obtain ⟨l, rest, hl, rfl, rfl | ⟨w, after, fault, rfl, hrefused⟩⟩ := exists_precedes cs
  · obtain ⟨us', hus', hcontent⟩ := hl.isValid.exists_tokens p
    rw [List.append_nil, hus'] at h
    cases h
    exact ⟨l, hl.isValid, (List.append_nil _).symm, hcontent⟩
  · rw [hl.tokensFrom_eq, hrefused.tokensFrom_eq] at h
    nomatch h

/-- Without tokens there is a fault, and a word that is refused as a number has no form of one. -/
theorem exists_fault_of_tokensFrom {p : Position} {cs : List Char} {err : ReadError}
    (h : tokensFrom p cs = .error err) :
    ∃ q fault, err = .fault q fault
      ∧ ∀ word, fault = .malformedNumber word → ∀ kind, ¬ IsWordOf word.toList kind := by
  obtain ⟨l, rest, hl, rfl, rfl | ⟨w, after, fault, rfl, hrefused⟩⟩ := exists_precedes cs
  · rw [List.append_nil, hl.isValid.tokensFrom_eq] at h
    nomatch h
  · rw [hl.tokensFrom_eq, hrefused.tokensFrom_eq] at h
    cases h
    refine ⟨_, fault, rfl, ?_⟩
    rintro _ rfl
    cases hrefused with
    | number _ _ hform => rwa [String.toList_ofList]

/-! ## One layout -/

/-- Whether a gap goes on with the given characters. -/
def beginsGap : List Char → Bool
  | [] => false
  | c :: _ => Text.isWhitespace c || c == ';'

/-- A gap goes as far as there are white space and comments, so where it ends is determined. -/
theorem IsGap.append_inj {rest rest' gap gap' : List Char} (h : IsGap rest gap)
    (h' : IsGap rest' gap') (hrest : beginsGap rest = false) (hrest' : beginsGap rest' = false)
    (heq : gap ++ rest = gap' ++ rest') : gap = gap' ∧ rest = rest' := by
  -- Both gaps are taken apart together, and what begins one of them tells how it goes on.
  induction h generalizing gap' with
  | nil =>
    cases h' with
    | nil => exact ⟨rfl, heq⟩
    | whitespace hc =>
      rw [List.nil_append] at heq
      simp [heq, beginsGap, hc] at hrest
    | comment =>
      rw [List.nil_append] at heq
      simp [heq, beginsGap] at hrest
  | @whitespace c cs hc _ ih =>
    cases h' with
    | nil =>
      rw [List.nil_append] at heq
      simp [← heq, beginsGap, hc] at hrest'
    | whitespace hc' h' =>
      obtain ⟨rfl, htail⟩ := List.cons.inj heq
      obtain ⟨rfl, rfl⟩ := ih h' htail
      exact ⟨rfl, rfl⟩
    | comment =>
      obtain ⟨rfl, -⟩ := List.cons.inj heq
      exact absurd hc (by decide)
  | @comment text cs htext hend _ ih =>
    cases h' with
    | nil =>
      rw [List.nil_append] at heq
      simp [← heq, beginsGap] at hrest'
    | whitespace hc' =>
      obtain ⟨rfl, -⟩ := List.cons.inj heq
      exact absurd hc' (by decide)
    | @comment text' cs' htext' hend' h' =>
      -- Both comments run to the first line end, so they end together.
      have htail : text ++ (cs ++ rest) = text' ++ (cs' ++ rest') := by simpa using heq
      obtain ⟨htake, hdrop⟩ := span_comment htext hend
      obtain ⟨htake', hdrop'⟩ := span_comment htext' hend'
      rw [htail] at htake hdrop
      obtain rfl : text = text' := htake.symm.trans htake'
      obtain ⟨rfl, rfl⟩ := ih h' (hdrop.symm.trans hdrop')
      exact ⟨rfl, rfl⟩

/-- No piece begins with a gap. -/
theorem ArePieces.beginsGap_eq_false {ps : List Piece} (h : ArePieces ps) :
    beginsGap (piecesText ps) = false := by
  cases h with
  | nil => rfl
  | mark hp =>
    obtain ⟨c, hc, hlexeme⟩ := hp.exists_singleton
    fin_cases hc <;> simp only [piecesText, hlexeme] <;> rfl
  | @word p ps hp =>
    obtain ⟨c, cs, hlexeme, hc⟩ := hp.exists_cons
    simp only [Text.isWordCharacter, Text.isDelimiter, Bool.not_eq_true',
      Bool.or_eq_false_iff] at hc
    simp [piecesText, hlexeme, beginsGap, hc]

/-- The first piece is followed by its gap, and the rest are pieces. -/
theorem ArePieces.tail {p : Piece} {ps : List Piece} (h : ArePieces (p :: ps)) :
    IsGap (piecesText ps) p.gap ∧ ArePieces ps := by
  cases h with
  | mark _ hgap hps => exact ⟨hgap, hps⟩
  | word _ _ hgap hps => exact ⟨hgap, hps⟩

/-- Pieces with one text and the same tokens are the same. -/
theorem ArePieces.eq_of_content {ps ps' : List Piece} (h : ArePieces ps) (h' : ArePieces ps')
    (hcontent : ps.map Piece.content = ps'.map Piece.content)
    (htext : piecesText ps = piecesText ps') : ps = ps' := by
  induction ps generalizing ps' with
  | nil => simpa using hcontent.symm
  | cons p ps ih =>
    cases ps' with
    | nil => simp at hcontent
    | cons p' ps' =>
      obtain ⟨hhead, hcontent⟩ := List.cons.inj hcontent
      obtain ⟨hkind, hlexeme⟩ := Prod.mk.inj hhead
      rw [String.ofList_inj] at hlexeme
      obtain ⟨hgap, hps⟩ := h.tail
      obtain ⟨hgap', hps'⟩ := h'.tail
      simp only [piecesText, hlexeme, List.append_cancel_left_eq] at htext
      -- The words agree, so the gaps after them start together, and a gap ends where no gap goes
      -- on.
      obtain ⟨hgaps, htail⟩ :=
        hgap.append_inj hgap' hps.beginsGap_eq_false hps'.beginsGap_eq_false htext
      obtain rfl := ih hps hps' hcontent htail
      obtain ⟨lexeme, kind, gap⟩ := p
      simp only at hkind hlexeme hgaps
      subst hkind hlexeme hgaps
      rfl

/-- A source has at most one layout. -/
theorem Layout.IsValid.eq_of_source {l l' : Layout} (h : l.IsValid) (h' : l'.IsValid)
    (heq : l.source = l'.source) : l = l' := by
  obtain ⟨us, hus, hcontent⟩ := h.exists_tokens .start
  obtain ⟨us', hus', hcontent'⟩ := h'.exists_tokens .start
  rw [heq, hus'] at hus
  cases hus
  -- Both have the tokens that the lexer gives, so only the gaps are left to compare.
  have hcontents := List.append_cancel_right (hcontent.symm.trans hcontent')
  obtain ⟨hlead, htext⟩ := h.lead.append_inj h'.lead h.pieces.beginsGap_eq_false
    h'.pieces.beginsGap_eq_false heq
  have hpieces := h.pieces.eq_of_content h'.pieces hcontents htext
  obtain ⟨lead, pieces⟩ := l
  simp only at hlead hpieces
  subst hlead hpieces
  rfl

/-! ## NUL -/

/-- Whether the last line of the characters holds a semicolon. -/
def EndsInComment (cs : List Char) : Prop := ∃ code text, cs = code ++ ';' :: text ∧ '\n' ∉ text

/-- Whether every NUL is in a comment. -/
def HidesNul (cs : List Char) : Prop :=
  ∀ before after, cs = before ++ '\x00' :: after → EndsInComment before

/-- Two texts that hide every NUL in comments do so together. -/
theorem HidesNul.append {cs cs' : List Char} (h : HidesNul cs) (h' : HidesNul cs') :
    HidesNul (cs ++ cs') := by
  intro before after heq
  rcases List.append_eq_append_iff.1 heq with ⟨mid, rfl, hmid⟩ | ⟨mid, hmid, hafter⟩
  · obtain ⟨code, text, rfl, htext⟩ := h' mid after hmid
    exact ⟨cs ++ code, text, by simp, htext⟩
  · cases mid with
    | nil =>
      obtain ⟨code, text, hcode, htext⟩ := h' [] after hafter.symm
      simp at hcode
    | cons c mid =>
      obtain ⟨rfl, -⟩ := List.cons.inj hafter
      exact h before mid hmid

/-- A text without a NUL has none to hide. -/
theorem hidesNul_of_not_mem {cs : List Char} (h : '\x00' ∉ cs) : HidesNul cs := by
  rintro before after rfl
  simp at h

/-- A gap hides every NUL in a comment. -/
theorem IsGap.hidesNul {rest gap : List Char} (h : IsGap rest gap) : HidesNul gap := by
  induction h with
  | nil => exact hidesNul_of_not_mem List.not_mem_nil
  | @whitespace c cs hc _ ih =>
    have hnul : '\x00' ∉ [c] := by
      rw [List.mem_singleton]
      rintro rfl
      exact absurd hc (by decide)
    exact (hidesNul_of_not_mem hnul).append ih
  | @comment text cs htext _ _ ih =>
    -- The comment starts the gap, and no line end comes before the NUL.
    have hcomment : HidesNul (';' :: text) := by
      intro before after heq
      cases before with
      | nil => nomatch heq
      | cons c before =>
        obtain ⟨rfl, rfl⟩ := List.cons.inj heq
        exact ⟨[], before, rfl, fun hmem => htext (List.mem_append_left _ hmem)⟩
    exact hcomment.append ih

/-- So do pieces with their gaps, since no lexeme has one. -/
theorem ArePieces.hidesNul {ps : List Piece} (h : ArePieces ps) : HidesNul (piecesText ps) := by
  induction h with
  | nil => exact hidesNul_of_not_mem List.not_mem_nil
  | @mark p ps hp hgap _ ih =>
    have hnul : '\x00' ∉ p.lexeme := by
      obtain ⟨c, hc, hlexeme⟩ := hp.exists_singleton
      rw [hlexeme, List.mem_singleton]
      rintro rfl
      exact absurd hc (by decide)
    exact (hidesNul_of_not_mem hnul).append (hgap.hidesNul.append ih)
  | @word p ps hp _ hgap _ ih =>
    have hnul : '\x00' ∉ p.lexeme := fun hmem =>
      absurd (isWordCharacter_of_isWord (isWordOf_iff.1 hp).1 _ hmem) (by decide)
    exact (hidesNul_of_not_mem hnul).append (hgap.hidesNul.append ih)

/-! ## What the lexer accepts -/

/-- The lexer accepts exactly the sources that have a layout, and gives its tokens. Every other
source has a fault. A source has one layout only, no word that is refused has the form of a number,
and every NUL of an accepted source is in a comment. -/
theorem tokenize_iff_layout (source : String) :
    (∀ words, (∃ ts, tokenize source = .ok ts ∧ ts.map tokenContent = words ++ [(.endOfInput, "")])
      ↔ ∃ l : Layout, l.IsValid ∧ l.source = source.toList ∧ l.pieces.map Piece.content = words)
    ∧ Subsingleton {l : Layout // l.IsValid ∧ l.source = source.toList}
    ∧ ((¬ ∃ l : Layout, l.IsValid ∧ l.source = source.toList) →
      ∃ p fault, tokenize source = .error (.fault p fault))
    ∧ (∀ p word, tokenize source = .error (.fault p (.malformedNumber word)) →
      ∀ kind, ¬ IsWordOf word.toList kind)
    ∧ (∀ ts, tokenize source = .ok ts → HidesNul source.toList) := by
  refine ⟨fun words => ⟨?_, ?_⟩, ⟨?_⟩, fun hnone => ?_, fun p word hfault => ?_, fun ts hts => ?_⟩
  · rintro ⟨ts, hts, hwords⟩
    obtain ⟨l, hl, hsource, hcontent⟩ := exists_layout_of_tokensFrom hts
    exact ⟨l, hl, hsource, List.append_cancel_right (hcontent.symm.trans hwords)⟩
  · rintro ⟨l, hl, hsource, rfl⟩
    obtain ⟨ts, hts, hcontent⟩ := hl.exists_tokens .start
    rw [hsource] at hts
    exact ⟨ts, hts, hcontent⟩
  · -- Two layouts of one source are equal.
    rintro ⟨l, hl, hsource⟩ ⟨l', hl', hsource'⟩
    exact Subtype.ext (hl.eq_of_source hl' (hsource.trans hsource'.symm))
  · -- A source without a layout is refused somewhere.
    cases htokens : tokenize source with
    | ok ts =>
      obtain ⟨l, hl, hsource, -⟩ := exists_layout_of_tokensFrom htokens
      exact absurd ⟨l, hl, hsource⟩ hnone
    | error err =>
      obtain ⟨p, fault, rfl, -⟩ := exists_fault_of_tokensFrom htokens
      exact ⟨p, fault, rfl⟩
  · -- A word refused as a number has no kind at all.
    obtain ⟨q, fault, heq, hform⟩ := exists_fault_of_tokensFrom hfault
    cases heq
    exact hform word rfl
  · -- Gaps and pieces hide what they have of NUL, and a source is made of them.
    obtain ⟨l, hl, hsource, -⟩ := exists_layout_of_tokensFrom hts
    rw [← hsource]
    exact hl.lead.hidesNul.append hl.pieces.hidesNul

/-- A minus sign alone is a name, the number after it has the value of its digits, and the NUL in
the comment is no fault; without the semicolon it is one. -/
theorem tokenize_nul :
    (∃ ts, tokenize "-:1.50;\x00" = .ok ts
      ∧ ts.map tokenContent = [(.identifier "-", "-"), (.colon, ":"),
          (.number ((⟨150, -2⟩ : Number.Decimal).toFloat false), "1.50")] ++ [(.endOfInput, "")])
    ∧ ∀ ts, tokenize "-:1.50\x00" ≠ .ok ts := by
  constructor
  · have hminus : IsWordOf ['-'] (.identifier "-") :=
      .name (isIdentifier_iff.2 (by decide)) (by decide)
    have hnumber : IsWordOf "1.50".toList (.number ((⟨150, -2⟩ : Number.Decimal).toFloat false)) :=
      .number false (Number.Decimal.ofChars?_eq_some_iff.1 (by decide))
    have hgap : IsGap [] (';' :: (['\x00'] ++ [])) := .comment (by decide) rfl .nil
    refine ((tokenize_iff_layout "-:1.50;\x00").1 _).2
      ⟨⟨[], [⟨['-'], .identifier "-", []⟩, ⟨[':'], .colon, []⟩,
        ⟨"1.50".toList, .number ((⟨150, -2⟩ : Number.Decimal).toFloat false), [';', '\x00']⟩]⟩,
        ⟨.nil, .word hminus rfl .nil (.mark .colon .nil (.word hnumber rfl hgap .nil))⟩, ?_, rfl⟩
    decide
  · intro ts hts
    obtain ⟨code, text, heq, -⟩ :=
      (tokenize_iff_layout "-:1.50\x00").2.2.2.2 ts hts "-:1.50".toList [] rfl
    have hmem : ';' ∈ "-:1.50".toList := heq ▸ by simp
    exact absurd hmem (by decide)

end ObjectLisp.Lexer
