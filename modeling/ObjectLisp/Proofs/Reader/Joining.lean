import ObjectLisp.Proofs.Reader.Derivation
import ObjectLisp.Proofs.Reader.Spacing

/-!
# Sources joined by a line break

Two sources that are programs, with a line break between them, are the program of the statements of
both. The line break ends whatever the first source ends with, a word or a comment. The tokens of
the second source are then the ones it has by itself, only further down (`Token.down`), and reading
does not depend on that, since the same words touch a colon.
-/

namespace ObjectLisp

/-! ## Further down -/

/-- The place `n` lines further down. -/
def Position.down (n : Nat) (p : Position) : Position := ⟨p.line + n, p.column⟩

/-- The token, `n` lines further down. -/
def Token.down (n : Nat) (t : Token) : Token := { t with position := t.position.down n }

/-- Moving to the right and down may come in either order. -/
theorem Position.down_right (n : Nat) (p : Position) (k : Nat) :
    (p.down n).right k = (p.right k).down n := rfl

/-- So may passing a character and moving down. -/
theorem Position.down_after (n : Nat) (p : Position) (c : Char) :
    (p.down n).after c = (p.after c).down n := by
  unfold after
  split
  · rw [down, down, Nat.add_right_comm]
  · rfl

/-- Different places stay different further down. -/
theorem Position.down_inj {n : Nat} {p q : Position} : p.down n = q.down n ↔ p = q := by
  obtain ⟨line, column⟩ := p
  obtain ⟨line', column'⟩ := q
  simp [down]

/-! ## Tokens of joined sources -/

namespace Lexer

/-- A source has the same tokens further down. -/
theorem tokensFrom_down (n : Nat) {p : Position} {cs : List Char} {ts : List Token}
    (h : tokensFrom p cs = .ok ts) : tokensFrom (p.down n) cs = .ok (ts.map (Token.down n)) := by
  -- The scanner reads the place only to hand it to the tokens, so the cases are its own.
  fun_induction tokensFrom p cs generalizing ts with
  | case1 p =>
    cases h
    rw [tokensFrom]
    rfl
  | case2 p c cs hspace ih =>
    rw [tokensFrom, if_pos hspace, Position.down_after]
    exact ih h
  | case3 p c cs hspace hcomment ih =>
    rw [tokensFrom, if_neg hspace, if_pos hcomment, Position.down_right]
    exact ih h
  | case4 p c cs hspace hcomment kind hmark ih =>
    obtain ⟨us, hus, rfl⟩ := exists_of_map_eq_ok h
    rw [tokensFrom, if_neg hspace, if_neg hcomment]
    simp only [hmark, Position.down_right, ih hus]
    rfl
  | case5 => cases h
  | case6 => cases h
  | case7 p c cs hspace hcomment hmark hstart word kind hkind =>
    rename_i ih
    obtain ⟨us, hus, rfl⟩ := exists_of_map_eq_ok h
    have hkind' : wordKind (c :: cs.takeWhile Text.isWordCharacter) = .ok kind := hkind
    have hrest : tokensFrom ((p.right (c :: cs.takeWhile Text.isWordCharacter).length).down n)
        (cs.dropWhile Text.isWordCharacter) = .ok (us.map (Token.down n)) := ih hus
    rw [tokensFrom, if_neg hspace, if_neg hcomment]
    simp only [hmark, hstart, hkind', Position.down_right, hrest]
    rfl

/-- Where a word ends, it ends with a line end after it. -/
theorem endsWord_append_newline {cs : List Char} (h : endsWord cs = true) (rest : List Char) :
    endsWord (cs ++ '\n' :: rest) = true := by
  cases cs with
  | nil => rfl
  | cons c cs => exact h

/-- So does a comment. -/
theorem endsComment_append_newline {cs : List Char} (h : endsComment cs = true)
    (rest : List Char) : endsComment (cs ++ '\n' :: rest) = true := by
  cases cs with
  | nil => rfl
  | cons c cs => exact h

/-- A mark is not the end of the input. -/
theorem IsMark.ne_endOfInput {w : List Char} {kind : TokenKind} (h : IsMark w kind) :
    kind ≠ .endOfInput := by
  cases h <;> nofun

/-- Nor is a word. -/
theorem IsWordOf.ne_endOfInput {w : List Char} {kind : TokenKind} (h : IsWordOf w kind) :
    kind ≠ .endOfInput := by
  cases h <;> nofun

/-- The tokens of a source, without the end of the input, are those of its text before a line
break. -/
theorem exists_spans_newline {p : Position} {cs : List Char} {ts : List Token}
    (h : tokensFrom p cs = .ok ts) :
    ∃ us q, ts = us ++ [⟨.endOfInput, "", q⟩] ∧ (∀ t ∈ us, t.kind ≠ .endOfInput)
      ∧ ∀ rest, Spans p cs ('\n' :: rest) us q := by
  fun_induction tokensFrom p cs generalizing ts with
  | case1 p =>
    cases h
    exact ⟨[], p, rfl, by simp, fun rest => spans_nil p _⟩
  | case2 p c cs hspace ih =>
    obtain ⟨us, q, rfl, hkinds, hspans⟩ := ih h
    exact ⟨us, q, rfl, hkinds, fun rest => (spans_whitespace hspace p _).append (hspans rest)⟩
  | case3 p c cs _ hcomment ih =>
    -- The last comment may have ended with the input and now ends with the line.
    obtain rfl := beq_iff_eq.1 hcomment
    obtain ⟨us, q, rfl, hkinds, hspans⟩ := ih h
    have htext : '\n' ∉ cs.takeWhile inComment := by
      intro hmem
      exact absurd (List.all_eq_true.1 List.all_takeWhile _ hmem) (by decide)
    refine ⟨us, q, rfl, hkinds, fun rest => ?_⟩
    have hend := endsComment_append_newline (endsComment_dropWhile cs) rest
    have happend := (spans_comment htext hend p).append (hspans rest)
    rwa [List.cons_append, List.takeWhile_append_dropWhile] at happend
  | case4 p c cs hspace hcomment kind hmark ih =>
    obtain ⟨vs, hvs, rfl⟩ := exists_of_map_eq_ok h
    obtain ⟨us, q, rfl, hkinds, hspans⟩ := ih hvs
    have hkind : kind ≠ .endOfInput := (isMark_iff.2 ⟨c, rfl, hmark⟩).ne_endOfInput
    exact ⟨⟨kind, c.toString, p⟩ :: us, q, rfl, List.forall_mem_cons.2 ⟨hkind, hkinds⟩,
      fun rest => (spans_mark hmark p _).append (hspans rest)⟩
  | case5 => cases h
  | case6 => cases h
  | case7 p c cs hspace hcomment hmark hstart word kind hkind =>
    rename_i ih
    obtain ⟨vs, hvs, rfl⟩ := exists_of_map_eq_ok h
    obtain ⟨us, q, rfl, hkinds, hspans⟩ := ih hvs
    obtain ⟨hcharacter, hcontrol⟩ := isWordCharacter_of_start hspace hcomment hmark hstart
    have hword : isWord word = true := isWord_takeWhile hcharacter hcontrol cs
    have hne : kind ≠ .endOfInput := (isWordOf_iff.2 ⟨hword, hkind⟩).ne_endOfInput
    refine ⟨⟨kind, String.ofList word, p⟩ :: us, q, rfl, List.forall_mem_cons.2 ⟨hne, hkinds⟩,
      fun rest => ?_⟩
    -- The same goes for the last word.
    have hend := endsWord_append_newline (endsWord_dropWhile cs) rest
    have happend := (spans_word hword hkind hend p).append (hspans rest)
    rwa [List.cons_append, List.takeWhile_append_dropWhile] at happend

/-- After a line break, a source has its tokens further down. -/
theorem tokenize_append_newline {source source' : String} {ts ts' : List Token}
    (h : tokenize source = .ok ts) (h' : tokenize source' = .ok ts') :
    ∃ us q, ts = us ++ [⟨.endOfInput, "", q⟩] ∧ (∀ t ∈ us, t.kind ≠ .endOfInput)
      ∧ tokenize (source ++ "\n" ++ source') = .ok (us ++ ts'.map (Token.down q.line)) := by
  obtain ⟨us, q, rfl, hkinds, hspans⟩ := exists_spans_newline h
  refine ⟨us, q, rfl, hkinds, ?_⟩
  have hnext : q.after '\n' = Position.start.down q.line := by
    rw [Position.down, Nat.add_comm]
    rfl
  have hnewline : Spans q ['\n'] source'.toList [] (Position.start.down q.line) :=
    hnext ▸ spans_whitespace (by decide) q source'.toList
  have happend := (hspans source'.toList).append hnewline _ (tokensFrom_down q.line h')
  rw [tokenize, String.toList_append, String.toList_append]
  rwa [List.append_nil] at happend

end Lexer

/-! ## Programs of joined sources -/

namespace Reader

/-- Two tokens moved down together touch as before. -/
theorem touches_down (n : Nat) (colon : Position) (t : Token) :
    touches (colon.down n) (t.down n) = touches colon t := by
  rw [Bool.eq_iff_iff, touches, touches, beq_iff_eq, beq_iff_eq, Position.down_right]
  exact Position.down_inj

/-- Tokens have the same spelling further down. -/
theorem sameSpelling_down (n : Nat) (ts : List Token) :
    SameSpelling ts (ts.map (Token.down n)) where
  content := by
    rw [List.map_map]
    rfl
  adjacent i c d t u hc hd _ ht hu := by
    rw [List.getElem?_map, hc] at hd
    rw [List.getElem?_map, ht] at hu
    cases hd
    cases hu
    exact (touches_down n c.position t).symm

/-- Two programs after each other. -/
theorem DerivesProgram.append {ts us : List Token} {ss ss' : List Statement}
    (h : DerivesProgram ts ss) (h' : DerivesProgram us ss') :
    DerivesProgram (ts ++ us) (ss ++ ss') := by
  induction h with
  | nil => exact h'
  | cons h _ ih =>
    rw [List.append_assoc]
    exact .cons h ih

/-- A program that is read is derived from the tokens up to the end of the input. -/
theorem exists_derivesProgram {ts : List Token} {p : Program} (h : programOfTokens ts = .ok p) :
    ∃ us rest, ts = us ++ rest ∧ DerivesProgram us p.statements ∧ atEnd rest = true := by
  unfold programOfTokens at h
  cases hstatements : statements ts with
  | mk result rest =>
    rw [hstatements] at h
    cases result with
    | error err => nomatch h
    | ok ss =>
      cases h
      obtain ⟨us, rfl, hderives, hend⟩ := statements_eq_ok_iff.1 hstatements
      exact ⟨us, rest, rfl, hderives, hend⟩

/-- A program that is read has tokens of which it is made. -/
theorem exists_tokens_of_readProgram {source : String} {p : Program}
    (h : readProgram source = .ok p) :
    ∃ ts, Lexer.tokenize source = .ok ts ∧ programOfTokens ts = .ok p := by
  unfold readProgram at h
  cases hts : Lexer.tokenize source with
  | error err =>
    rw [hts] at h
    nomatch h
  | ok ts =>
    rw [hts] at h
    exact ⟨ts, rfl, h⟩

/-- A program ends with a closing parenthesis. -/
theorem DerivesProgram.kind_getLast {ts : List Token} {ss : List Statement}
    (h : DerivesProgram ts ss) : ∀ t ∈ ts.getLast?, t.kind = .rightParen := by
  induction h with
  | nil => simp
  | @cons ts us s ss h _ ih =>
    intro t ht
    rw [List.getLast?_append, Option.mem_def, Option.or_eq_some_iff] at ht
    rcases ht with ht | ⟨-, ht⟩
    · exact ih t ht
    · cases h <;> simp_all [List.getLast?_cons, List.getLast?_append]

/-- The tokens before the end of the input are derived as the program that is read. -/
theorem derivesProgram_of_programOfTokens {us : List Token} (h : ∀ t ∈ us, t.kind ≠ .endOfInput)
    {q : Position} {p : Program}
    (hread : programOfTokens (us ++ [⟨.endOfInput, "", q⟩]) = .ok p) :
    DerivesProgram us p.statements := by
  obtain ⟨vs, rest, heq, hderives, hend⟩ := exists_derivesProgram hread
  cases rest with
  | nil =>
    -- The last token of a program is not the end of the input.
    rw [List.append_nil] at heq
    have hlast : ⟨.endOfInput, "", q⟩ ∈ vs.getLast? := by simp [← heq]
    nomatch hderives.kind_getLast _ hlast
  | cons t rest =>
    have ht : t.kind = .endOfInput := by simpa [atEnd] using hend
    rcases List.append_eq_append_iff.1 heq with ⟨mid, rfl, hmid⟩ | ⟨mid, rfl, hmid⟩
    · cases mid with
      | nil => rwa [List.append_nil] at hderives
      | cons t' mid => simp at hmid
    · cases mid with
      | nil => rwa [List.append_nil]
      | cons t' mid =>
        obtain ⟨rfl, -⟩ := List.cons.inj hmid
        exact absurd ht (h t (by simp))

/-- Two sources that are programs, with a line break between them, are the program of the statements
of both. -/
theorem readProgram_append_newline {source source' : String} {p p' : Program}
    (h : readProgram source = .ok p) (h' : readProgram source' = .ok p') :
    readProgram (source ++ "\n" ++ source') = .ok ⟨p.statements ++ p'.statements⟩ := by
  obtain ⟨ts, hts, hread⟩ := exists_tokens_of_readProgram h
  obtain ⟨ts', hts', hread'⟩ := exists_tokens_of_readProgram h'
  obtain ⟨us, q, rfl, hkinds, htokens⟩ := Lexer.tokenize_append_newline hts hts'
  have hderives := derivesProgram_of_programOfTokens hkinds hread
  have hdown : programOfTokens (ts'.map (Token.down q.line)) = .ok p' :=
    ((sameOutcome_programOfTokens (sameSpelling_down q.line ts')).eq_ok_iff p').1 hread'
  obtain ⟨vs, rest, hts', hderives', hend⟩ := exists_derivesProgram hdown
  have hboth := (hderives.append hderives').statements_eq hend
  simp only [readProgram, htokens, bind, Except.bind, programOfTokens]
  rw [hts', ← List.append_assoc, hboth]
  rfl

end Reader

end ObjectLisp
