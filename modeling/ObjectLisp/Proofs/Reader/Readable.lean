import ObjectLisp.Proofs.Number.Bits
import ObjectLisp.Proofs.Reader.Joining

/-!
# What a source can say

Not every expression comes from a source. One that does holds no computed value and no undefined
number, its names are names to the lexer, and no application has a special name as its head
(`IsReadable`).

The lexer vouches for the names and numbers of single tokens (`Token.IsLexed`), and each rule of the
grammar builds an expression from tokens and readable parts (`Derives.isReadable`).
-/

namespace ObjectLisp

open Lexer Reader

/-! ## Readable expressions -/

/-- A name that may stand for a variable, a parameter or a definition. -/
structure IsVariable (name : String) : Prop where
  identifier : IsIdentifier name.toList
  free : name ∉ ["true", "false", "null"]

/-- The expressions that a source may hold. There is no rule for a computed value. -/
inductive IsReadable : Expr → Prop
  | var {name : String} (h : IsVariable name) : IsReadable (.var name)
  | number {x : Float} (h : x.isNaN = false) : IsReadable (.number x)
  | bool (b : Bool) : IsReadable (.bool b)
  | null : IsReadable .null
  | keyword {name : String} (h : IsIdentifier name.toList) : IsReadable (.keyword name)
  | lambda {params : List String} {body : Expr} (hparams : ∀ name ∈ params, IsVariable name)
      (hbody : IsReadable body) : IsReadable (.lambda params body)
  | application {head : Expr} {args : List Expr}
      (hspecial : ∀ name, head = .var name → name ∉ specialNames) (hhead : IsReadable head)
      (hargs : ∀ a ∈ args, IsReadable a) : IsReadable (.application head args)
  | conditional {guard consequent alternative : Expr} (hguard : IsReadable guard)
      (hconsequent : IsReadable consequent) (halternative : IsReadable alternative) :
      IsReadable (.conditional guard consequent alternative)

/-- The statements that a source may hold. -/
inductive Statement.IsReadable : Statement → Prop
  | define {name : String} {value : Expr} (hname : IsVariable name)
      (hvalue : ObjectLisp.IsReadable value) : IsReadable (.define name value)
  | print {e : Expr} (h : ObjectLisp.IsReadable e) : IsReadable (.print e)

/-! ## Tokens -/

/-- What the lexer vouches for: names are names, also those of keywords, which are taken from the
text of the token, and numbers are defined. -/
structure Token.IsLexed (t : Token) : Prop where
  name : ∀ name, t.kind = .identifier name → IsVariable name
  number : ∀ x, t.kind = .number x → x.isNaN = false
  keyword : namesKeyword t.kind = true → IsIdentifier t.lexeme.toList

/-- Reading a decimal gives a number, or infinity if it is too large. -/
theorem Number.Decimal.isNaN_toFloat (d : Number.Decimal) (negative : Bool) :
    (d.toFloat negative).isNaN = false := by
  have hle : d.nearest ≤ Number.infinityMagnitude := Nat.min_le_right _ _
  rw [← Bool.not_eq_true, Number.isNaN_iff, Number.Decimal.toFloat,
    Number.magnitude_ofMagnitude hle]
  exact Nat.not_lt.2 hle

/-- The token of a mark is lexed. -/
theorem Lexer.IsMark.isLexed {w : List Char} {kind : TokenKind} (h : IsMark w kind) (p : Position) :
    Token.IsLexed ⟨kind, String.ofList w, p⟩ := by
  cases h <;> exact ⟨nofun, nofun, nofun⟩

/-- So is the token of a word. -/
theorem Lexer.IsWordOf.isLexed {w : List Char} {kind : TokenKind} (h : IsWordOf w kind)
    (p : Position) : Token.IsLexed ⟨kind, String.ofList w, p⟩ := by
  cases h with
  | number negative h =>
    refine ⟨nofun, ?_, nofun⟩
    rintro _ ⟨⟩
    exact Number.Decimal.isNaN_toFloat _ negative
  | bool b =>
    have hname : isName (String.ofList (if b then "true" else "false").toList).toList = true := by
      cases b <;> decide
    exact ⟨nofun, nofun, fun _ => isIdentifier_iff.2 hname⟩
  | null =>
    have hname : isName (String.ofList "null".toList).toList = true := by decide
    exact ⟨nofun, nofun, fun _ => isIdentifier_iff.2 hname⟩
  | name h hfree =>
    rw [← String.toList_ofList (l := w)] at h
    refine ⟨?_, nofun, fun _ => h⟩
    rintro _ ⟨⟩
    exact ⟨h, hfree⟩

/-- The tokens of a source are those the lexer vouches for. -/
theorem Lexer.isLexed_of_tokenize {source : String} {ts : List Token}
    (h : tokenize source = .ok ts) : ∀ t ∈ ts, t.IsLexed := by
  obtain ⟨l, hl, -, hcontent⟩ := exists_layout_of_tokensFrom h
  intro t ht
  have hmem : tokenContent t ∈ l.pieces.map Piece.content ++ [(.endOfInput, "")] :=
    hcontent ▸ List.mem_map_of_mem ht
  obtain ⟨kind, lexeme, p⟩ := t
  rcases List.mem_append.1 hmem with hmem | hend
  · obtain ⟨piece, hpiece, hcontent⟩ := List.mem_map.1 hmem
    cases hcontent
    rcases hl.pieces.isMark_or_isWordOf piece hpiece with htext | htext
    · exact htext.isLexed p
    · exact htext.isLexed p
  · cases List.mem_singleton.1 hend
    exact ⟨nofun, nofun, nofun⟩

/-! ## Expressions and statements -/

/-- The parameters of a lambda are names of variables. -/
theorem isVariable_of_parameters {params : List Token} {names : List String}
    (h : params.map (·.kind) = names.map .identifier) (hlexed : ∀ t ∈ params, t.IsLexed) :
    ∀ name ∈ names, IsVariable name := by
  intro name hname
  have hmem : TokenKind.identifier name ∈ params.map (·.kind) := h ▸ List.mem_map_of_mem hname
  obtain ⟨t, ht, hkind⟩ := List.mem_map.1 hmem
  exact (hlexed t ht).name name hkind

/-- An expression that does not begin with a special name is no variable of that name. -/
theorem Reader.Derives.not_mem_specialNames {ts : List Token} {e : Expr} (h : Derives ts e)
    (hspecial : startsSpecial ts = false) : ∀ name, e = .var name → name ∉ specialNames := by
  rintro name rfl
  cases h with
  | @var t _ ht =>
    obtain ⟨kind, lexeme, p⟩ := t
    obtain rfl : kind = .identifier name := ht
    simpa [startsSpecial] using hspecial

mutual

/-- What is derived from the tokens of a source is readable. -/
theorem Reader.Derives.isReadable {ts : List Token} {e : Expr} (h : Derives ts e)
    (hlexed : ∀ t ∈ ts, t.IsLexed) : IsReadable e := by
  -- What the grammar asks of a head and of names, and the scanner of a word, is what makes the form
  -- readable.
  cases h with
  | var ht => exact .var ((hlexed _ (by simp)).name _ ht)
  | number ht => exact .number ((hlexed _ (by simp)).number _ ht)
  | bool => exact .bool _
  | null => exact .null
  | keyword _ ht _ => exact .keyword ((hlexed _ (by simp)).keyword ht)
  | lambda _ _ _ hparams _ hbody _ =>
    exact .lambda (isVariable_of_parameters hparams fun t ht => hlexed t (by simp [ht]))
      (hbody.isReadable fun t ht => hlexed t (by simp [ht]))
  | conditional _ _ _ h₁ h₂ h₃ _ =>
    exact .conditional (h₁.isReadable fun t ht => hlexed t (by simp [ht]))
      (h₂.isReadable fun t ht => hlexed t (by simp [ht]))
      (h₃.isReadable fun t ht => hlexed t (by simp [ht]))
  | application _ hspecial hhead hargs _ =>
    exact .application (hhead.not_mem_specialNames hspecial)
      (hhead.isReadable fun t ht => hlexed t (by simp [ht]))
      (hargs.isReadable fun t ht => hlexed t (by simp [ht]))

/-- Expressions in a row are readable if their tokens are lexed. -/
theorem Reader.DerivesAll.isReadable {ts : List Token} {es : List Expr} (h : DerivesAll ts es)
    (hlexed : ∀ t ∈ ts, t.IsLexed) : ∀ e ∈ es, IsReadable e := by
  cases h with
  | nil => nofun
  | cons h hs =>
    exact List.forall_mem_cons.2 ⟨h.isReadable fun t ht => hlexed t (by simp [ht]),
      hs.isReadable fun t ht => hlexed t (by simp [ht])⟩

end

/-- So is a statement. -/
theorem Reader.DerivesStatement.isReadable {ts : List Token} {s : Statement}
    (h : DerivesStatement ts s) (hlexed : ∀ t ∈ ts, t.IsLexed) : s.IsReadable := by
  cases h with
  | define _ _ _ ht h _ =>
    exact .define ((hlexed _ (by simp)).name _ ht)
      (h.isReadable fun t ht => hlexed t (by simp [ht]))
  | print _ _ _ h _ => exact .print (h.isReadable fun t ht => hlexed t (by simp [ht]))

/-- So are the statements of a program. -/
theorem Reader.DerivesProgram.isReadable {ts : List Token} {ss : List Statement}
    (h : DerivesProgram ts ss) (hlexed : ∀ t ∈ ts, t.IsLexed) : ∀ s ∈ ss, s.IsReadable := by
  induction h with
  | nil => nofun
  | cons h _ ih =>
    exact List.forall_mem_cons.2 ⟨h.isReadable fun t ht => hlexed t (by simp [ht]),
      ih fun t ht => hlexed t (by simp [ht])⟩

/-! ## Sources -/

/-- One expression that is read is derived from the tokens up to the end of the input. -/
theorem Reader.exists_derives {ts : List Token} {e : Expr} (h : expressionOfTokens ts = .ok e) :
    ∃ us rest, ts = us ++ rest ∧ Derives us e := by
  unfold expressionOfTokens singleExpression at h
  split at h
  · next e' rest hread =>
    obtain ⟨us, rfl, hderives⟩ := expression_eq_ok_iff.1 hread
    refine ⟨us, rest, rfl, ?_⟩
    unfold requireEnd at h
    split at h
    · cases h
      exact hderives
    · split at h
      · cases h
        exact hderives
      · nomatch h
  · nomatch h

/-- Whatever a source says is readable. -/
theorem isReadable_of_read (source : String) :
    (∀ e, readExpression source = .ok e → IsReadable e)
    ∧ ∀ p, readProgram source = .ok p → ∀ s ∈ p.statements, s.IsReadable := by
  constructor
  · intro e h
    unfold readExpression at h
    cases hts : tokenize source with
    | error err =>
      rw [hts] at h
      nomatch h
    | ok ts =>
      rw [hts] at h
      -- The end of the input is a token too, but it is not one of the derivation.
      obtain ⟨us, rest, rfl, hderives⟩ := exists_derives h
      exact hderives.isReadable fun t ht => isLexed_of_tokenize hts t (by simp [ht])
  · intro p h
    obtain ⟨ts, hts, hread⟩ := exists_tokens_of_readProgram h
    obtain ⟨us, rest, rfl, hderives, -⟩ := exists_derivesProgram hread
    exact hderives.isReadable fun t ht => isLexed_of_tokenize hts t (by simp [ht])

/-- Special names are names of variables where no form begins, and a reserved word may name a
keyword. -/
theorem isReadable_of_read_specialNames :
    IsReadable (.application (.lambda ["if"] (.keyword "null")) [.var "define"])
    ∧ Statement.IsReadable (.define "print" (.var "lambda")) := by
  have hexpression : readExpression "((lambda (if) :null) define)"
      = .ok (.application (.lambda ["if"] (.keyword "null")) [.var "define"]) := by cbv
  have hprogram : readProgram "(define print lambda)"
      = .ok ⟨[.define "print" (.var "lambda")]⟩ := by cbv
  exact ⟨(isReadable_of_read _).1 _ hexpression,
    (isReadable_of_read _).2 _ hprogram _ List.mem_cons_self⟩

end ObjectLisp
