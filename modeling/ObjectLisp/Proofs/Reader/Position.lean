import ObjectLisp.Proofs.Reader.Grammar
import ObjectLisp.Proofs.Token.Layout

/-!
# Where the tokens of a source stand

A token has the place that the characters before it determine: its line is one more than the
newlines among them, and its column is one more than the characters after the last of these
(`Position.following`). Which characters stand before a token is known from the layout of the source
(`Layout.before`), so places say nothing that the gaps and the texts of the tokens do not.

Where the lexer stops, the source is a layout up to a text that is refused, and the error has the
place of this text. The reader looks at places only to see whether a name touches the colon before
it, which it does if no gap is between them.
-/

namespace ObjectLisp

open Lexer Reader

/-- A token touches a colon if there is no gap between them. -/
theorem Reader.touches_iff {colon : Position} {t : Token} {gap : List Char}
    (h : t.position = colon.afterAll (':' :: gap)) : touches colon t = true ↔ gap = [] := by
  have hcolon : colon.after ':' = colon.right 1 := Position.after_of_ne (by decide) colon
  rw [touches, beq_iff_eq, h, Position.afterAll_cons, hcolon, Position.afterAll_eq_self_iff]

/-- After a colon, a word that may name a keyword is accepted if it touches the colon. -/
theorem Reader.step_keyword_cases {colon : Position} {t : Token} (ht : namesKeyword t.kind = true)
    (stack : List Slot) : step ⟨.keyword colon, stack⟩ t
      = if touches colon t = true then .ok (deliver (.keyword t.lexeme) stack)
        else .error (.fault t.position .detachedKeyword) := by
  simp only [step, keywordToken]
  cases hkind : t.kind <;> simp_all [namesKeyword]

namespace Lexer

/-- The characters of a source before the token of index `i`. After the last token they are all of
them. -/
def Layout.before (l : Layout) (i : Nat) : List Char := l.lead ++ piecesText (l.pieces.take i)

/-- The text of some pieces goes on with that of the others. -/
theorem piecesText_append (ps qs : List Piece) :
    piecesText (ps ++ qs) = piecesText ps ++ piecesText qs := by
  induction ps with
  | nil => rfl
  | cons p ps ih =>
    rw [List.cons_append, piecesText, ih, piecesText, List.append_assoc, List.append_assoc]

variable {l : Layout} {i : Nat} {piece : Piece}

/-- Before a token there are the characters before the one in front of it, and its text and gap. -/
theorem Layout.before_succ (h : l.pieces[i]? = some piece) :
    l.before (i + 1) = l.before i ++ (piece.lexeme ++ piece.gap) := by
  rw [Layout.before, Layout.before, List.take_add_one, h, piecesText_append, List.append_assoc]
  simp [piecesText]

/-- Before the end of the input there is all of the source. -/
theorem Layout.before_length (l : Layout) : l.before l.pieces.length = l.source := by
  rw [Layout.before, List.take_length, Layout.source]

/-- A source is what comes before a piece and the text from there on. -/
theorem Layout.source_eq_before_append (l : Layout) (i : Nat) :
    l.source = l.before i ++ piecesText (l.pieces.drop i) := by
  rw [Layout.before, List.append_assoc, ← piecesText_append, List.take_append_drop, Layout.source]

/-- A token stands after the text of the pieces before it. -/
theorem getElem?_piecesTokens (p : Position) (ps : List Piece) (i : Nat) :
    (piecesTokens p ps)[i]? = ps[i]?.map fun piece =>
      ⟨piece.kind, String.ofList piece.lexeme, p.afterAll (piecesText (ps.take i))⟩ := by
  induction ps generalizing p i with
  | nil => simp [piecesTokens]
  | cons piece ps ih =>
    cases i with
    | zero => rfl
    | succ i =>
      rw [piecesTokens, List.getElem?_cons_succ, ih, List.getElem?_cons_succ]
      simp [piecesText, Position.afterAll_append]

/-- Every token stands after the characters before it. -/
theorem Layout.getElem?_tokens (l : Layout) (i : Nat) :
    (l.tokens .start)[i]? = l.pieces[i]?.map fun piece =>
      ⟨piece.kind, String.ofList piece.lexeme, .following (l.before i)⟩ := by
  rw [Layout.tokens, getElem?_piecesTokens, ← Position.afterAll_append, Position.afterAll_start]
  rfl

/-- There are as many tokens as pieces. -/
theorem Layout.length_tokens (l : Layout) (p : Position) :
    (l.tokens p).length = l.pieces.length := by
  have hcontent := map_tokenContent_piecesTokens (p.afterAll l.lead) l.pieces
  rw [← List.length_map, Layout.tokens, hcontent, List.length_map]

/-- The tokens of a layout that is a whole source, with the end of the input. -/
def Layout.allTokens (l : Layout) : List Token :=
  l.tokens .start ++ [⟨.endOfInput, "", .following l.source⟩]

/-- A token of a source is that of a piece, or the end of the input. -/
theorem Layout.allTokens_cases {t : Token} (h : l.allTokens[i]? = some t) :
    (∃ piece, l.pieces[i]? = some piece
      ∧ t = ⟨piece.kind, String.ofList piece.lexeme, .following (l.before i)⟩)
    ∨ i = l.pieces.length ∧ t = ⟨.endOfInput, "", .following l.source⟩ := by
  rw [Layout.allTokens, List.getElem?_append, l.length_tokens] at h
  split at h
  · next hi =>
    rw [l.getElem?_tokens, List.getElem?_eq_getElem hi] at h
    exact .inl ⟨_, List.getElem?_eq_getElem hi, (Option.some.inj h).symm⟩
  · next hi =>
    obtain ⟨hindex, ht⟩ := List.getElem?_eq_some_iff.1 h
    simp only [List.length_singleton] at hindex
    exact .inr ⟨by omega, by simpa using ht.symm⟩

/-- A token stands after the characters before it, and its text comes next. -/
theorem Layout.position_eq {t : Token} (h : l.allTokens[i]? = some t) :
    t.position = .following (l.before i)
      ∧ ∃ after, l.source = l.before i ++ (t.lexeme.toList ++ after) := by
  rcases l.allTokens_cases h with ⟨piece, hpiece, rfl⟩ | ⟨rfl, rfl⟩
  · obtain ⟨hi, rfl⟩ := List.getElem?_eq_some_iff.1 hpiece
    refine ⟨rfl, l.pieces[i].gap ++ piecesText (l.pieces.drop (i + 1)), ?_⟩
    rw [l.source_eq_before_append i, List.drop_eq_getElem_cons hi, piecesText,
      String.toList_ofList]
  · rw [l.before_length]
    exact ⟨rfl, [], (List.append_nil _).symm⟩

/-- Pieces have the texts of tokens. -/
theorem ArePieces.isMark_or_isWordOf {ps : List Piece} (h : ArePieces ps) :
    ∀ p ∈ ps, IsMark p.lexeme p.kind ∨ IsWordOf p.lexeme p.kind := by
  induction h with
  | nil => nofun
  | mark hp _ _ ih => exact List.forall_mem_cons.2 ⟨.inl hp, ih⟩
  | word hp _ _ _ ih => exact List.forall_mem_cons.2 ⟨.inr hp, ih⟩

/-- The text of a colon. -/
theorem eq_colon {w : List Char} (h : IsMark w .colon ∨ IsWordOf w .colon) : w = [':'] := by
  rcases h with h | h
  · cases h
    rfl
  · nomatch h

/-- A token touches the colon before it if nothing but the colon is between them. -/
theorem Layout.IsValid.touches_iff (hl : l.IsValid) {colon t : Token}
    (hcolon : l.allTokens[i]? = some colon) (hkind : colon.kind = .colon)
    (ht : l.allTokens[i + 1]? = some t) :
    touches colon.position t = true ↔ l.before (i + 1) = l.before i ++ [':'] := by
  rcases l.allTokens_cases hcolon with ⟨piece, hpiece, rfl⟩ | ⟨-, rfl⟩
  · have hlexeme : piece.lexeme = [':'] :=
      eq_colon (hkind ▸ hl.pieces.isMark_or_isWordOf piece (List.mem_of_getElem? hpiece))
    have hbefore := l.before_succ hpiece
    rw [hlexeme, List.singleton_append] at hbefore
    have hposition :
        t.position = (Position.following (l.before i)).afterAll (':' :: piece.gap) := by
      rw [(l.position_eq ht).1, hbefore, ← Position.afterAll_start, Position.afterAll_append,
        Position.afterAll_start]
    rw [Reader.touches_iff hposition, hbefore]
    simp
  · nomatch hkind

/-- A source that is a layout has its tokens. -/
theorem Layout.IsValid.tokenize_eq {source : String} (hl : l.IsValid)
    (hsource : l.source = source.toList) : tokenize source = .ok l.allTokens := by
  rw [tokenize, ← hsource, hl.tokensFrom_eq, Position.afterAll_start]
  rfl

/-- Only layouts have tokens. -/
theorem exists_layout_of_tokenize {source : String} {ts : List Token}
    (h : tokenize source = .ok ts) :
    ∃ l : Layout, l.IsValid ∧ l.source = source.toList ∧ ts = l.allTokens := by
  obtain ⟨l, hl, hsource, -⟩ := exists_layout_of_tokensFrom h
  rw [hl.tokenize_eq hsource] at h
  exact ⟨l, hl, hsource, (Except.ok.inj h).symm⟩

/-- Where the lexer stops, a layout ends and a text is refused. -/
theorem tokenize_eq_error_iff {source : String} {err : ReadError} :
    tokenize source = .error err ↔ ∃ (l : Layout) (w rest : List Char) (fault : Fault),
      source.toList = l.source ++ (w ++ rest) ∧ l.Precedes (w ++ rest) ∧ IsRefused rest w fault
        ∧ err = .fault (.following l.source) fault := by
  have hread {l : Layout} {w rest : List Char} {fault : Fault}
      (hsource : source.toList = l.source ++ (w ++ rest)) (hl : l.Precedes (w ++ rest))
      (hrefused : IsRefused rest w fault) :
      tokenize source = .error (.fault (.following l.source) fault) := by
    rw [tokenize, hsource, hl.tokensFrom_eq, hrefused.tokensFrom_eq, Position.afterAll_start]
    rfl
  -- A source without a fault is a layout to its end, and that has tokens.
  constructor
  · intro h
    obtain ⟨l, rest, hl, hsource, rfl | ⟨w, after, fault, rfl, hrefused⟩⟩ :=
      exists_precedes source.toList
    · rw [List.append_nil] at hsource
      rw [hl.isValid.tokenize_eq hsource] at h
      nomatch h
    · rw [hread hsource.symm hl hrefused] at h
      exact ⟨l, w, after, fault, hsource.symm, hl, hrefused, (Except.error.inj h).symm⟩
  · rintro ⟨l, w, rest, fault, hsource, hl, hrefused, rfl⟩
    exact hread hsource hl hrefused

/-- A token stands at the place that the characters before it determine, and its text is what comes
next in the source. The end of the input stands after all characters, and an error stands before the
text that is refused, up to which the source is a layout. A name after a colon is accepted exactly
if it begins with the character after the colon. -/
theorem places_of_tokens (source : String) :
    (∀ ts, tokenize source = .ok ts → ∃ l : Layout, l.IsValid ∧ l.source = source.toList
      ∧ ts.map tokenContent = l.pieces.map Piece.content ++ [(.endOfInput, "")]
      ∧ (∀ i t, ts[i]? = some t → t.position = .following (l.before i)
        ∧ ∃ after, source.toList = l.before i ++ (t.lexeme.toList ++ after))
      ∧ ts.getLast? = some ⟨.endOfInput, "", .following source.toList⟩
      ∧ ∀ i colon t stack, ts[i]? = some colon → colon.kind = .colon → ts[i + 1]? = some t →
        namesKeyword t.kind = true →
        (l.before (i + 1) = l.before i ++ [':'] →
          step ⟨.keyword colon.position, stack⟩ t = .ok (deliver (.keyword t.lexeme) stack))
        ∧ (l.before (i + 1) ≠ l.before i ++ [':'] →
          step ⟨.keyword colon.position, stack⟩ t = .error (.fault t.position .detachedKeyword)))
    ∧ ∀ err, tokenize source = .error err ↔ ∃ (l : Layout) (w rest : List Char) (fault : Fault),
      source.toList = l.source ++ (w ++ rest) ∧ l.Precedes (w ++ rest) ∧ IsRefused rest w fault
        ∧ err = .fault (.following l.source) fault := by
  refine ⟨fun ts hts => ?_, fun err => tokenize_eq_error_iff⟩
  obtain ⟨l, hl, hsource, rfl⟩ := exists_layout_of_tokenize hts
  refine ⟨l, hl, hsource, ?_, fun i t ht => hsource ▸ l.position_eq ht, ?_, ?_⟩
  · rw [Layout.allTokens, List.map_append, Layout.tokens, map_tokenContent_piecesTokens]
    rfl
  · rw [Layout.allTokens, List.getLast?_concat, hsource]
  · -- Nothing between the colon and the word means that the word is one column further.
    intro i colon t stack hcolon hkind ht hname
    have htouches := hl.touches_iff hcolon hkind ht
    rw [step_keyword_cases hname]
    exact ⟨fun h => if_pos (htouches.2 h), fun h => if_neg (htouches.not.2 h)⟩

/-- A source with a colon in a comment, a carriage return, a tab, and two colons in its second
line. Only the first of them touches a name. -/
def twoColons : Layout where
  lead := []
  pieces := [⟨['é'], .identifier "é", ";:\n\r\t".toList⟩, ⟨['('], .leftParen, []⟩,
    ⟨[':'], .colon, []⟩, ⟨['ü'], .identifier "ü", [' ']⟩, ⟨[':'], .colon, [' ']⟩,
    ⟨['x'], .identifier "x", []⟩]

/-- The layout with two colons is valid. -/
theorem isValid_twoColons : twoColons.IsValid where
  lead := .nil
  pieces := by
    have hname {c : Char} (h : isName [c] = true) (hfree : String.ofList [c] ∉
        ["true", "false", "null"]) : IsWordOf [c] (.identifier (String.ofList [c])) :=
      .name (isIdentifier_iff.2 h) hfree
    have hspace {cs : List Char} : IsGap cs [' '] := .whitespace (by decide) .nil
    have hcomment {cs : List Char} : IsGap cs (';' :: ([':'] ++ ['\n', '\r', '\t'])) :=
      .comment (by decide) rfl
        (.whitespace (by decide) (.whitespace (by decide) (.whitespace (by decide) .nil)))
    exact .word (hname (by decide) (by decide)) rfl hcomment (.mark .leftParen .nil
      (.mark .colon .nil (.word (hname (by decide) (by decide)) rfl hspace
        (.mark .colon hspace (.word (hname (by decide) (by decide)) rfl .nil .nil)))))

/-- A carriage return and a tab take a column each, and so does a letter beyond ASCII. The name that
does not touch its colon is refused at its own place, and so is a word that is no number. -/
theorem places_of_tokens_twoColons :
    (∃ ts, tokenize "é;:\n\r\t(:ü : x" = .ok ts
      ∧ ts.getLast? = some ⟨.endOfInput, "", ⟨2, 10⟩⟩
      ∧ (∀ t, ts[3]? = some t → t.position = ⟨2, 5⟩)
      ∧ ∀ stack, step ⟨.keyword ⟨2, 7⟩, stack⟩ ⟨.identifier "x", "x", ⟨2, 9⟩⟩
        = .error (.fault ⟨2, 9⟩ .detachedKeyword))
    ∧ tokenize "(é \n\t1x)" = .error (.fault ⟨2, 2⟩ (.malformedNumber "1x")) := by
  constructor
  · have hsource : twoColons.source = "é;:\n\r\t(:ü : x".toList := by decide
    obtain ⟨htokens, -⟩ := places_of_tokens "é;:\n\r\t(:ü : x"
    obtain ⟨l, hl, hl', -, hplace, hlast, hkeyword⟩ :=
      htokens _ (isValid_twoColons.tokenize_eq hsource)
    obtain rfl : l = twoColons := hl.eq_of_source isValid_twoColons (hl'.trans hsource.symm)
    refine ⟨_, isValid_twoColons.tokenize_eq hsource, ?_, fun t ht => ?_, fun stack => ?_⟩
    · rw [hlast]
      decide
    · rw [(hplace 3 t ht).1]
      decide
    · exact (hkeyword 4 ⟨.colon, ":", ⟨2, 7⟩⟩ _ stack (by decide) rfl (by decide) rfl).2 (by decide)
  · obtain ⟨-, hfault⟩ := places_of_tokens "(é \n\t1x)"
    have hgap {cs : List Char} : IsGap cs [' ', '\n', '\t'] :=
      .whitespace (by decide) (.whitespace (by decide) (.whitespace (by decide) .nil))
    have hname : IsWordOf ['é'] (.identifier "é") :=
      .name (isIdentifier_iff.2 (by decide)) (by decide)
    have hnumber (kind : TokenKind) : ¬ IsWordOf ['1', 'x'] kind := by
      intro hword
      have hkind : wordKind ['1', 'x'] = .error (.malformedNumber "1x") := rfl
      nomatch hkind.symm.trans (isWordOf_iff.1 hword).2
    have hlayout : Layout.Precedes ⟨[], [⟨['('], .leftParen, []⟩,
        ⟨['é'], .identifier "é", [' ', '\n', '\t']⟩]⟩ ['1', 'x', ')'] :=
      ⟨.nil, .cons (.mark .leftParen) .nil (.cons (.word hname rfl) hgap .nil)⟩
    exact (hfault _).2 ⟨_, ['1', 'x'], [')'], _, by decide, hlayout,
      .number (by decide) rfl hnumber, rfl⟩

end Lexer

end ObjectLisp
