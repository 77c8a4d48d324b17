import ObjectLisp.Proofs.Reader.Soundness

/-!
# One derivation for each reading

`Derivation ts e` holds the ways to derive the expression `e` from the tokens `ts`: it has a
constructor for each rule of the grammar, and the derivations of the parts are in it. There is never
more than one. The rule is known from the expression, so two derivations can differ only in which
tokens belong to which part, and there `Derives.append_inj` leaves no choice: a part is what the
reader takes.

What is accepted has balanced parentheses (`isBalanced`), because each rule that opens a form closes
it and its parts are balanced.
-/

namespace ObjectLisp.Reader

/-! ## Derivations -/

mutual

/-- How an expression is derived. -/
inductive Derivation : List Token → Expr → Type
  | var {t : Token} {name : String} (ht : t.kind = .identifier name) : Derivation [t] (.var name)
  | number {t : Token} {x : Float} (ht : t.kind = .number x) : Derivation [t] (.number x)
  | bool {t : Token} {b : Bool} (ht : t.kind = .bool b) : Derivation [t] (.bool b)
  | null {t : Token} (ht : t.kind = .null) : Derivation [t] .null
  | keyword {colon t : Token} (hcolon : colon.kind = .colon) (ht : namesKeyword t.kind = true)
      (htouches : touches colon.position t = true) : Derivation [colon, t] (.keyword t.lexeme)
  | lambda {o word o' c' c : Token} {params body : List Token} {names : List String} {b : Expr}
      (ho : o.kind = .leftParen) (hword : word.kind = .identifier "lambda")
      (ho' : o'.kind = .leftParen) (hparams : params.map (·.kind) = names.map .identifier)
      (hc' : c'.kind = .rightParen) (d : Derivation body b) (hc : c.kind = .rightParen) :
      Derivation (o :: word :: o' :: (params ++ c' :: (body ++ [c]))) (.lambda names b)
  | conditional {o word c : Token} {name : String} {ts₁ ts₂ ts₃ : List Token} {e₁ e₂ e₃ : Expr}
      (ho : o.kind = .leftParen) (hword : word.kind = .identifier name)
      (hname : name ∈ conditionalNames) (d₁ : Derivation ts₁ e₁) (d₂ : Derivation ts₂ e₂)
      (d₃ : Derivation ts₃ e₃) (hc : c.kind = .rightParen) :
      Derivation (o :: word :: (ts₁ ++ (ts₂ ++ (ts₃ ++ [c])))) (.conditional e₁ e₂ e₃)
  | application {o c : Token} {ts us : List Token} {e : Expr} {es : List Expr}
      (ho : o.kind = .leftParen) (hspecial : startsSpecial ts = false) (d : Derivation ts e)
      (ds : Derivations us es) (hc : c.kind = .rightParen) :
      Derivation (o :: (ts ++ (us ++ [c]))) (.application e es)

/-- How expressions one after another are derived. -/
inductive Derivations : List Token → List Expr → Type
  | nil : Derivations [] []
  | cons {ts us : List Token} {e : Expr} {es : List Expr} (d : Derivation ts e)
      (ds : Derivations us es) : Derivations (ts ++ us) (e :: es)

end

/-- How a statement is derived. -/
inductive StatementDerivation : List Token → Statement → Type
  | define {o word t c : Token} {ts : List Token} {keyword name : String} {e : Expr}
      (ho : o.kind = .leftParen) (hword : word.kind = .identifier keyword)
      (hkeyword : keyword ∈ defineNames) (ht : t.kind = .identifier name) (d : Derivation ts e)
      (hc : c.kind = .rightParen) :
      StatementDerivation (o :: word :: t :: (ts ++ [c])) (.define name e)
  | print {o word c : Token} {ts : List Token} {keyword : String} {e : Expr}
      (ho : o.kind = .leftParen) (hword : word.kind = .identifier keyword)
      (hkeyword : keyword ∈ printNames) (d : Derivation ts e) (hc : c.kind = .rightParen) :
      StatementDerivation (o :: word :: (ts ++ [c])) (.print e)

/-- How the statements of a program are derived, each from a block of the tokens. -/
inductive ProgramDerivation : List Token → List Statement → Type
  | nil : ProgramDerivation [] []
  | cons {ts us : List Token} {s : Statement} {ss : List Statement} (d : StatementDerivation ts s)
      (ds : ProgramDerivation us ss) : ProgramDerivation (ts ++ us) (s :: ss)

/-! ## Derivations and what is derived -/

mutual

/-- A derivation of an expression shows that the tokens derive it. -/
theorem Derivation.derives {ts : List Token} {e : Expr} (d : Derivation ts e) : Derives ts e := by
  cases d with
  | var ht => exact .var ht
  | number ht => exact .number ht
  | bool ht => exact .bool ht
  | null ht => exact .null ht
  | keyword hcolon ht htouches => exact .keyword hcolon ht htouches
  | lambda ho hword ho' hparams hc' d hc => exact .lambda ho hword ho' hparams hc' d.derives hc
  | conditional ho hword hname d₁ d₂ d₃ hc =>
    exact .conditional ho hword hname d₁.derives d₂.derives d₃.derives hc
  | application ho hspecial d ds hc => exact .application ho hspecial d.derives ds.derivesAll hc

/-- Derivations of several expressions show that the tokens derive them in a row. -/
theorem Derivations.derivesAll {ts : List Token} {es : List Expr} (ds : Derivations ts es) :
    DerivesAll ts es := by
  cases ds with
  | nil => exact .nil
  | cons d ds => exact .cons d.derives ds.derivesAll

end

mutual

/-- What is derived has a derivation. -/
theorem Derives.nonempty {ts : List Token} {e : Expr} (h : Derives ts e) :
    Nonempty (Derivation ts e) := by
  -- One rule of the grammar each; the smaller derivations come from the structure of this one.
  cases h with
  | var ht => exact ⟨.var ht⟩
  | number ht => exact ⟨.number ht⟩
  | bool ht => exact ⟨.bool ht⟩
  | null ht => exact ⟨.null ht⟩
  | keyword hcolon ht htouches => exact ⟨.keyword hcolon ht htouches⟩
  | lambda ho hword ho' hparams hc' h hc =>
    obtain ⟨d⟩ := h.nonempty
    exact ⟨.lambda ho hword ho' hparams hc' d hc⟩
  | conditional ho hword hname h₁ h₂ h₃ hc =>
    obtain ⟨d₁⟩ := h₁.nonempty
    obtain ⟨d₂⟩ := h₂.nonempty
    obtain ⟨d₃⟩ := h₃.nonempty
    exact ⟨.conditional ho hword hname d₁ d₂ d₃ hc⟩
  | application ho hspecial h hs hc =>
    obtain ⟨d⟩ := h.nonempty
    obtain ⟨ds⟩ := hs.nonempty
    exact ⟨.application ho hspecial d ds hc⟩

/-- So has each row of expressions that is derived. -/
theorem DerivesAll.nonempty {ts : List Token} {es : List Expr} (h : DerivesAll ts es) :
    Nonempty (Derivations ts es) := by
  cases h with
  | nil => exact ⟨.nil⟩
  | cons h hs =>
    obtain ⟨d⟩ := h.nonempty
    obtain ⟨ds⟩ := hs.nonempty
    exact ⟨.cons d ds⟩

end

/-- A derivation of a statement shows that the tokens derive it. -/
theorem StatementDerivation.derives {ts : List Token} {s : Statement}
    (d : StatementDerivation ts s) : DerivesStatement ts s := by
  cases d with
  | define ho hword hkeyword ht d hc => exact .define ho hword hkeyword ht d.derives hc
  | print ho hword hkeyword d hc => exact .print ho hword hkeyword d.derives hc

/-- A statement that is derived has a derivation. -/
theorem DerivesStatement.nonempty {ts : List Token} {s : Statement} (h : DerivesStatement ts s) :
    Nonempty (StatementDerivation ts s) := by
  cases h with
  | define ho hword hkeyword ht h hc =>
    obtain ⟨d⟩ := h.nonempty
    exact ⟨.define ho hword hkeyword ht d hc⟩
  | print ho hword hkeyword h hc =>
    obtain ⟨d⟩ := h.nonempty
    exact ⟨.print ho hword hkeyword d hc⟩

/-- A derivation of a program shows that the tokens derive it. -/
theorem ProgramDerivation.derives {ts : List Token} {ss : List Statement}
    (d : ProgramDerivation ts ss) : DerivesProgram ts ss := by
  induction d with
  | nil => exact .nil
  | cons d ds ih => exact .cons d.derives ih

/-- A program that is derived has a derivation. -/
theorem DerivesProgram.nonempty {ts : List Token} {ss : List Statement}
    (h : DerivesProgram ts ss) : Nonempty (ProgramDerivation ts ss) := by
  induction h with
  | nil => exact ⟨.nil⟩
  | cons h hs ih =>
    obtain ⟨d⟩ := h.nonempty
    obtain ⟨ds⟩ := ih
    exact ⟨.cons d ds⟩

/-! ## There is only one -/

mutual

/-- Derivations of the same expression from the same tokens are the same. -/
theorem Derivation.heq {ts ts' : List Token} {e e' : Expr} (d : Derivation ts e)
    (d' : Derivation ts' e') (hts : ts = ts') (he : e = e') : HEq d d' := by
  cases d with
  | var ht =>
    cases d' with
    | var ht' =>
      cases hts
      cases he
      rfl
    | _ => nomatch he
  | number ht =>
    cases d' with
    | number ht' =>
      cases hts
      cases he
      rfl
    | _ => nomatch he
  | bool ht =>
    cases d' with
    | bool ht' =>
      cases hts
      cases he
      rfl
    | _ => nomatch he
  | null ht =>
    cases d' with
    | null ht' =>
      cases hts
      rfl
    | _ => nomatch he
  | keyword hcolon ht htouches =>
    cases d' with
    | keyword hcolon' ht' htouches' =>
      cases hts
      rfl
    | _ => nomatch he
  | lambda ho hword ho' hparams hc' d hc =>
    cases d' with
    | lambda _ _ _ hparams' _ d' _ =>
      cases he
      simp only [List.cons.injEq] at hts
      obtain ⟨rfl, rfl, rfl, htail⟩ := hts
      -- There are as many parameter tokens as names on both sides.
      have hlength := congrArg List.length (hparams.trans hparams'.symm)
      rw [List.length_map, List.length_map] at hlength
      obtain ⟨rfl, hrest⟩ := List.append_inj htail hlength
      obtain ⟨rfl, hbody⟩ := List.cons.inj hrest
      obtain ⟨rfl, -, hclose⟩ := d.derives.append_inj d'.derives hbody
      cases hclose
      cases d.heq d' rfl rfl
      rfl
    | _ => nomatch he
  | conditional ho hword hname d₁ d₂ d₃ hc =>
    cases d' with
    | conditional _ hword' _ d₁' d₂' d₃' _ =>
      cases he
      simp only [List.cons.injEq] at hts
      obtain ⟨rfl, rfl, htail⟩ := hts
      obtain ⟨rfl, -, hrest⟩ := d₁.derives.append_inj d₁'.derives htail
      obtain ⟨rfl, -, hrest'⟩ := d₂.derives.append_inj d₂'.derives hrest
      obtain ⟨rfl, -, hclose⟩ := d₃.derives.append_inj d₃'.derives hrest'
      cases hclose
      cases hword.symm.trans hword'
      cases d₁.heq d₁' rfl rfl
      cases d₂.heq d₂' rfl rfl
      cases d₃.heq d₃' rfl rfl
      rfl
    | _ => nomatch he
  | application ho hspecial d ds hc =>
    cases d' with
    | application _ _ d' ds' _ =>
      cases he
      simp only [List.cons.injEq] at hts
      obtain ⟨rfl, htail⟩ := hts
      obtain ⟨rfl, -, hrest⟩ := d.derives.append_inj d'.derives htail
      obtain ⟨rfl, hclose⟩ := List.append_inj' hrest rfl
      cases hclose
      cases d.heq d' rfl rfl
      cases ds.heq ds' rfl rfl
      rfl
    | _ => nomatch he

/-- The same tokens derive the same expressions in a row in one way only. -/
theorem Derivations.heq {ts ts' : List Token} {es es' : List Expr} (ds : Derivations ts es)
    (ds' : Derivations ts' es') (hts : ts = ts') (hes : es = es') : HEq ds ds' := by
  cases ds with
  | nil =>
    cases ds' with
    | nil => rfl
    | cons d' ds' => nomatch hes
  | cons d ds =>
    cases ds' with
    | nil => nomatch hes
    | cons d' ds' =>
      cases hes
      obtain ⟨rfl, -, rfl⟩ := d.derives.append_inj d'.derives hts
      cases d.heq d' rfl rfl
      cases ds.heq ds' rfl rfl
      rfl

end

/-- Where two lists of tokens begin with a statement, it is the same one. -/
theorem DerivesStatement.append_inj {us us' rest rest' : List Token} {s s' : Statement}
    (h : DerivesStatement us s) (h' : DerivesStatement us' s') (heq : us ++ rest = us' ++ rest') :
    us = us' ∧ s = s' ∧ rest = rest' := by
  have hread := h.statement_eq rest
  rw [heq, h'.statement_eq] at hread
  cases hread
  exact ⟨List.append_cancel_right heq, rfl, rfl⟩

/-- The same tokens derive the same statement in one way only. -/
theorem StatementDerivation.heq {ts ts' : List Token} {s s' : Statement}
    (d : StatementDerivation ts s) (d' : StatementDerivation ts' s') (hts : ts = ts')
    (hs : s = s') : HEq d d' := by
  cases d with
  | define ho hword hkeyword ht d hc =>
    cases d' with
    | define _ hword' _ ht' d' _ =>
      cases hs
      simp only [List.cons.injEq] at hts
      obtain ⟨rfl, rfl, rfl, htail⟩ := hts
      -- The expressions begin at the same token, so they end at the same one.
      obtain ⟨rfl, -, hclose⟩ := d.derives.append_inj d'.derives htail
      cases hclose
      cases hword.symm.trans hword'
      cases d.heq d' rfl rfl
      rfl
    | print => nomatch hs
  | print ho hword hkeyword d hc =>
    cases d' with
    | define => nomatch hs
    | print _ hword' _ d' _ =>
      cases hs
      simp only [List.cons.injEq] at hts
      obtain ⟨rfl, rfl, htail⟩ := hts
      obtain ⟨rfl, -, hclose⟩ := d.derives.append_inj d'.derives htail
      cases hclose
      cases hword.symm.trans hword'
      cases d.heq d' rfl rfl
      rfl

/-- The blocks of a program, the statements derived from them and their derivations are determined
by the tokens. -/
theorem ProgramDerivation.heq {ts ts' : List Token} {ss ss' : List Statement}
    (ds : ProgramDerivation ts ss) (ds' : ProgramDerivation ts' ss') (hts : ts = ts') :
    ss = ss' ∧ HEq ds ds' := by
  induction ds generalizing ts' ss' with
  | nil =>
    cases ds' with
    | nil => exact ⟨rfl, .rfl⟩
    | cons d' ds' =>
      -- Every statement has a token, so no list is empty on one side only.
      have hlength := congrArg List.length hts
      cases d' <;> simp at hlength
  | cons d ds ih =>
    cases ds' with
    | nil =>
      have hlength := congrArg List.length hts
      cases d <;> simp at hlength
    | cons d' ds' =>
      -- The first statements end at the same token, which splits both lists alike.
      obtain ⟨rfl, rfl, htail⟩ := d.derives.append_inj d'.derives hts
      obtain ⟨rfl, hds⟩ := ih ds' htail
      cases htail
      cases hds
      cases d.heq d' rfl rfl
      exact ⟨rfl, .rfl⟩

/-- Tokens have at most one derivation of an expression. -/
theorem subsingleton_derivation (ts : List Token) : Subsingleton (Σ e, Derivation ts e) := by
  refine ⟨fun ⟨e, d⟩ ⟨e', d'⟩ => ?_⟩
  have hts : ts ++ [] = ts ++ [] := rfl
  obtain ⟨-, rfl, -⟩ := d.derives.append_inj d'.derives hts
  cases d.heq d' rfl rfl
  rfl

/-- Tokens have at most one derivation of a program. -/
theorem subsingleton_programDerivation (ts : List Token) :
    Subsingleton (Σ ss, ProgramDerivation ts ss) := by
  refine ⟨fun ⟨ss, ds⟩ ⟨ss', ds'⟩ => ?_⟩
  obtain ⟨rfl, hds⟩ := ds.heq ds' rfl
  cases hds
  rfl

/-! ## Parentheses -/

/-- How many parentheses are open after the tokens, if `n` are open before them. There is no answer
if one is closed that was not open. -/
def openAfter : Nat → List Token → Option Nat
  | n, [] => some n
  | n, t :: ts =>
    match t.kind with
    | .leftParen => openAfter (n + 1) ts
    | .rightParen => if n = 0 then none else openAfter (n - 1) ts
    | _ => openAfter n ts

/-- Whether every parenthesis that is opened is closed after it, and none else. -/
def isBalanced (ts : List Token) : Bool := openAfter 0 ts == some 0

/-- An opening parenthesis adds one to the open ones. -/
theorem openAfter_leftParen {t : Token} (ht : t.kind = .leftParen) (n : Nat) (ts : List Token) :
    openAfter n (t :: ts) = openAfter (n + 1) ts := by
  simp only [openAfter, ht]

/-- A closing parenthesis takes one away. -/
theorem openAfter_rightParen {t : Token} (ht : t.kind = .rightParen) (n : Nat) (ts : List Token) :
    openAfter (n + 1) (t :: ts) = openAfter n ts := by
  simp only [openAfter, ht, Nat.add_one_ne_zero, if_false, Nat.add_sub_cancel]

/-- Any other token leaves the count alone. -/
theorem openAfter_of_ne {t : Token} (hopen : t.kind ≠ .leftParen) (hclose : t.kind ≠ .rightParen)
    (n : Nat) (ts : List Token) : openAfter n (t :: ts) = openAfter n ts := by
  rw [openAfter]
  split
  · contradiction
  · contradiction
  · rfl

/-- A name is no parenthesis. -/
theorem openAfter_identifier {t : Token} {name : String} (ht : t.kind = .identifier name) (n : Nat)
    (ts : List Token) : openAfter n (t :: ts) = openAfter n ts :=
  openAfter_of_ne (by simp [ht]) (by simp [ht]) n ts

/-- A list of names leaves the count alone. -/
theorem openAfter_parameters {params : List Token} {names : List String}
    (h : params.map (·.kind) = names.map .identifier) (n : Nat) (rest : List Token) :
    openAfter n (params ++ rest) = openAfter n rest := by
  induction params generalizing names with
  | nil => rfl
  | cons t params ih =>
    cases names with
    | nil => simp at h
    | cons name names =>
      obtain ⟨ht, h⟩ := List.cons.inj h
      rw [List.cons_append, openAfter_identifier ht, ih h]

mutual

/-- The tokens of an expression close what they open and nothing else. -/
theorem Derives.openAfter_eq {ts : List Token} {e : Expr} (h : Derives ts e) (n : Nat)
    (rest : List Token) : openAfter n (ts ++ rest) = openAfter n rest := by
  -- An atom holds no parenthesis; every form opens one, balances its parts and closes it.
  cases h with
  | var ht => exact openAfter_identifier ht n rest
  | number ht => exact openAfter_of_ne (by simp [ht]) (by simp [ht]) n rest
  | bool ht => exact openAfter_of_ne (by simp [ht]) (by simp [ht]) n rest
  | null ht => exact openAfter_of_ne (by simp [ht]) (by simp [ht]) n rest
  | keyword hcolon ht _ =>
    rw [List.cons_append, openAfter_of_ne (by simp [hcolon]) (by simp [hcolon])]
    refine openAfter_of_ne ?_ ?_ n rest <;> intro hkind <;> simp [hkind, namesKeyword] at ht
  | lambda ho hword ho' hparams hc' hbody hc =>
    rw [List.cons_append, openAfter_leftParen ho, List.cons_append, openAfter_identifier hword,
      List.cons_append, openAfter_leftParen ho', List.append_assoc, openAfter_parameters hparams,
      List.cons_append, openAfter_rightParen hc', List.append_assoc, hbody.openAfter_eq]
    exact openAfter_rightParen hc n rest
  | conditional ho hword hname h₁ h₂ h₃ hc =>
    rw [List.cons_append, openAfter_leftParen ho, List.cons_append, openAfter_identifier hword,
      List.append_assoc, h₁.openAfter_eq, List.append_assoc, h₂.openAfter_eq, List.append_assoc,
      h₃.openAfter_eq]
    exact openAfter_rightParen hc n rest
  | application ho hspecial hhead hargs hc =>
    rw [List.cons_append, openAfter_leftParen ho, List.append_assoc, hhead.openAfter_eq,
      List.append_assoc, hargs.openAfter_eq]
    exact openAfter_rightParen hc n rest

/-- So do the tokens of expressions in a row. -/
theorem DerivesAll.openAfter_eq {ts : List Token} {es : List Expr} (h : DerivesAll ts es) (n : Nat)
    (rest : List Token) : openAfter n (ts ++ rest) = openAfter n rest := by
  cases h with
  | nil => rfl
  | cons h hs => rw [List.append_assoc, h.openAfter_eq, hs.openAfter_eq]

end

/-- The tokens of a statement close what they open and nothing else. -/
theorem DerivesStatement.openAfter_eq {ts : List Token} {s : Statement}
    (h : DerivesStatement ts s) (n : Nat) (rest : List Token) :
    openAfter n (ts ++ rest) = openAfter n rest := by
  cases h with
  | define ho hword hkeyword ht h hc =>
    rw [List.cons_append, openAfter_leftParen ho, List.cons_append, openAfter_identifier hword,
      List.cons_append, openAfter_identifier ht, List.append_assoc, h.openAfter_eq]
    exact openAfter_rightParen hc n rest
  | print ho hword hkeyword h hc =>
    rw [List.cons_append, openAfter_leftParen ho, List.cons_append, openAfter_identifier hword,
      List.append_assoc, h.openAfter_eq]
    exact openAfter_rightParen hc n rest

/-- The tokens of an expression are balanced. -/
theorem Derives.isBalanced {ts : List Token} {e : Expr} (h : Derives ts e) :
    isBalanced ts = true := by
  have hopen := h.openAfter_eq 0 []
  rw [List.append_nil] at hopen
  simp [Reader.isBalanced, hopen, openAfter]

/-- The tokens of a program are balanced. -/
theorem DerivesProgram.isBalanced {ts : List Token} {ss : List Statement}
    (h : DerivesProgram ts ss) : isBalanced ts = true := by
  have hopen : openAfter 0 ts = some 0 := by
    induction h with
    | nil => rfl
    | cons h hs ih => rw [h.openAfter_eq, ih]
  simp [Reader.isBalanced, hopen]

/-! ## What the reader accepts -/

/-- A list without an end-of-input token has ended when it is empty. -/
theorem eq_nil_of_atEnd {us rest : List Token}
    (h : ∀ t ∈ us ++ rest, t.kind ≠ .endOfInput) (hend : atEnd rest = true) : rest = [] := by
  cases rest with
  | nil => rfl
  | cons t rest =>
    have ht : t.kind = .endOfInput := by simpa [atEnd] using hend
    exact absurd ht (h t (by simp))

/-- A token list is read as one expression exactly if it is derived as a whole. -/
theorem expressionOfTokens_eq_ok_iff {ts : List Token} (h : ∀ t ∈ ts, t.kind ≠ .endOfInput)
    {e : Expr} : expressionOfTokens ts = .ok e ↔ Derives ts e := by
  constructor
  · intro hread
    unfold expressionOfTokens singleExpression at hread
    split at hread
    · next e' rest hexpression =>
      obtain ⟨us, rfl, hderives⟩ := expression_eq_ok_iff.1 hexpression
      -- Whatever the expression leaves over has to be the end, which does not occur in the list.
      cases rest with
      | nil =>
        cases hread
        rwa [List.append_nil]
      | cons t rest =>
        have ht : t.kind ≠ .endOfInput := h t (by simp)
        simp only [requireEnd, if_neg ht] at hread
        nomatch hread
    · nomatch hread
  · intro hderives
    have hread := hderives.expression_eq []
    rw [List.append_nil] at hread
    simp only [expressionOfTokens, singleExpression, hread, requireEnd]

/-- A token list is read as a program exactly if it is derived as one. -/
theorem programOfTokens_eq_ok_iff {ts : List Token} (h : ∀ t ∈ ts, t.kind ≠ .endOfInput)
    {p : Program} : programOfTokens ts = .ok p ↔ DerivesProgram ts p.statements := by
  constructor
  · intro hread
    unfold programOfTokens at hread
    cases hstatements : statements ts with
    | mk result rest =>
      rw [hstatements] at hread
      cases result with
      | error err => nomatch hread
      | ok ss =>
        cases hread
        obtain ⟨us, rfl, hderives, hend⟩ := statements_eq_ok_iff.1 hstatements
        rwa [eq_nil_of_atEnd h hend, List.append_nil]
  · intro hderives
    have hend : atEnd [] = true := rfl
    have hread := hderives.statements_eq hend
    rw [List.append_nil] at hread
    rw [programOfTokens, hread]
    rfl

/-- The reader accepts exactly what has a derivation, as an expression and as a program, and then
there is one derivation only. So it refuses tokens whose parentheses are not balanced. -/
theorem accepts_iff_derivation {ts : List Token} (h : ∀ t ∈ ts, t.kind ≠ .endOfInput) :
    (∀ e, expressionOfTokens ts = .ok e ↔ Nonempty (Derivation ts e))
    ∧ Subsingleton (Σ e, Derivation ts e)
    ∧ (∀ p, programOfTokens ts = .ok p ↔ Nonempty (ProgramDerivation ts p.statements))
    ∧ Subsingleton (Σ ss, ProgramDerivation ts ss)
    ∧ (isBalanced ts = false →
      (∀ e, expressionOfTokens ts ≠ .ok e) ∧ ∀ p, programOfTokens ts ≠ .ok p) := by
  refine ⟨fun e => ?_, subsingleton_derivation ts, fun p => ?_, subsingleton_programDerivation ts,
    fun hbalanced => ⟨fun e he => ?_, fun p hp => ?_⟩⟩
  · rw [expressionOfTokens_eq_ok_iff h]
    exact ⟨Derives.nonempty, fun ⟨d⟩ => d.derives⟩
  · rw [programOfTokens_eq_ok_iff h]
    exact ⟨DerivesProgram.nonempty, fun ⟨d⟩ => d.derives⟩
  · rw [((expressionOfTokens_eq_ok_iff h).1 he).isBalanced] at hbalanced
    nomatch hbalanced
  · rw [((programOfTokens_eq_ok_iff h).1 hp).isBalanced] at hbalanced
    nomatch hbalanced

/-- The tokens of `((lambda (if) :null) define)`. -/
def formNamesAsNames : List Token :=
  [⟨.leftParen, "(", ⟨1, 1⟩⟩, ⟨.leftParen, "(", ⟨1, 2⟩⟩, ⟨.identifier "lambda", "lambda", ⟨1, 3⟩⟩,
    ⟨.leftParen, "(", ⟨1, 10⟩⟩, ⟨.identifier "if", "if", ⟨1, 11⟩⟩, ⟨.rightParen, ")", ⟨1, 13⟩⟩,
    ⟨.colon, ":", ⟨1, 15⟩⟩, ⟨.null, "null", ⟨1, 16⟩⟩, ⟨.rightParen, ")", ⟨1, 20⟩⟩,
    ⟨.identifier "define", "define", ⟨1, 22⟩⟩, ⟨.rightParen, ")", ⟨1, 28⟩⟩]

/-- The names of forms are names like any other where no form begins, and without its last
parenthesis the expression is refused. -/
theorem accepts_formNamesAsNames :
    (∀ t ∈ formNamesAsNames, t.kind ≠ .endOfInput)
    ∧ Nonempty (Derivation formNamesAsNames
        (.application (.lambda ["if"] (.keyword "null")) [.var "define"]))
    ∧ ∀ e, expressionOfTokens formNamesAsNames.dropLast ≠ .ok e := by
  have hinput : ∀ t ∈ formNamesAsNames, t.kind ≠ .endOfInput := by decide
  have hcut : ∀ t ∈ formNamesAsNames.dropLast, t.kind ≠ .endOfInput := by decide
  obtain ⟨haccepts, -⟩ := accepts_iff_derivation hinput
  obtain ⟨-, -, -, -, hrefuses⟩ := accepts_iff_derivation hcut
  exact ⟨hinput, (haccepts _).1 rfl, (hrefuses (by decide)).1⟩

end ObjectLisp.Reader
