import ObjectLisp.Reader

/-!
# The grammar of expressions and statements

`Derives ts e` says that the tokens `ts` are an expression `e`, and `DerivesStatement` says the same
of statements. Neither speaks of the reader: a form is the tokens of its parts between two
parentheses. One rule is about more than one form. A form whose first token is one of the
`specialNames` is what the name says it is and no application.

The reader finds what the grammar derives, whatever tokens follow. The expression is delivered to
the stack as if it had been read in one step (`Derives.resume_eq`), so the forms around it play no
part.
-/

namespace ObjectLisp.Reader

/-! ## Derivations -/

/-- The names that make a form a special one or a statement. -/
def specialNames : List String := "lambda" :: conditionalNames ++ defineNames ++ printNames

/-- Whether the first token is a special name. -/
def startsSpecial : List Token → Bool
  | ⟨.identifier name, _, _⟩ :: _ => specialNames.contains name
  | _ => false

/-- Whether a token of the given kind may name a keyword. -/
def namesKeyword : TokenKind → Bool
  | .identifier _ | .bool _ | .null => true
  | _ => false

mutual

/-- The tokens of an expression. -/
inductive Derives : List Token → Expr → Prop
  | var {t : Token} {name : String} (ht : t.kind = .identifier name) : Derives [t] (.var name)
  | number {t : Token} {x : Float} (ht : t.kind = .number x) : Derives [t] (.number x)
  | bool {t : Token} {b : Bool} (ht : t.kind = .bool b) : Derives [t] (.bool b)
  | null {t : Token} (ht : t.kind = .null) : Derives [t] .null
  | keyword {colon t : Token} (hcolon : colon.kind = .colon) (ht : namesKeyword t.kind = true)
      (htouches : touches colon.position t = true) : Derives [colon, t] (.keyword t.lexeme)
  | lambda {o word o' c' c : Token} {params body : List Token} {names : List String} {b : Expr}
      (ho : o.kind = .leftParen) (hword : word.kind = .identifier "lambda")
      (ho' : o'.kind = .leftParen) (hparams : params.map (·.kind) = names.map .identifier)
      (hc' : c'.kind = .rightParen) (hbody : Derives body b) (hc : c.kind = .rightParen) :
      Derives (o :: word :: o' :: (params ++ c' :: (body ++ [c]))) (.lambda names b)
  | conditional {o word c : Token} {name : String} {ts₁ ts₂ ts₃ : List Token} {e₁ e₂ e₃ : Expr}
      (ho : o.kind = .leftParen) (hword : word.kind = .identifier name)
      (hname : name ∈ conditionalNames) (h₁ : Derives ts₁ e₁) (h₂ : Derives ts₂ e₂)
      (h₃ : Derives ts₃ e₃) (hc : c.kind = .rightParen) :
      Derives (o :: word :: (ts₁ ++ (ts₂ ++ (ts₃ ++ [c])))) (.conditional e₁ e₂ e₃)
  | application {o c : Token} {ts us : List Token} {e : Expr} {es : List Expr}
      (ho : o.kind = .leftParen) (hspecial : startsSpecial ts = false) (hhead : Derives ts e)
      (hargs : DerivesAll us es) (hc : c.kind = .rightParen) :
      Derives (o :: (ts ++ (us ++ [c]))) (.application e es)

/-- The tokens of expressions one after another. -/
inductive DerivesAll : List Token → List Expr → Prop
  | nil : DerivesAll [] []
  | cons {ts us : List Token} {e : Expr} {es : List Expr} (h : Derives ts e)
      (hs : DerivesAll us es) : DerivesAll (ts ++ us) (e :: es)

end

/-- The tokens of a statement. -/
inductive DerivesStatement : List Token → Statement → Prop
  | define {o word t c : Token} {ts : List Token} {keyword name : String} {e : Expr}
      (ho : o.kind = .leftParen) (hword : word.kind = .identifier keyword)
      (hkeyword : keyword ∈ defineNames) (ht : t.kind = .identifier name) (h : Derives ts e)
      (hc : c.kind = .rightParen) :
      DerivesStatement (o :: word :: t :: (ts ++ [c])) (.define name e)
  | print {o word c : Token} {ts : List Token} {keyword : String} {e : Expr}
      (ho : o.kind = .leftParen) (hword : word.kind = .identifier keyword)
      (hkeyword : keyword ∈ printNames) (h : Derives ts e) (hc : c.kind = .rightParen) :
      DerivesStatement (o :: word :: (ts ++ [c])) (.print e)

/-- The tokens of statements one after another. -/
inductive DerivesProgram : List Token → List Statement → Prop
  | nil : DerivesProgram [] []
  | cons {ts us : List Token} {s : Statement} {ss : List Statement} (h : DerivesStatement ts s)
      (hs : DerivesProgram us ss) : DerivesProgram (ts ++ us) (s :: ss)

/-! ## Reading what is derived -/

/-- Go on after the outcome of a token. -/
def feed : Progress → List Token → Reading Expr
  | .done e, rest => (.ok e, rest)
  | .more s, rest => resume s rest

/-- Reading goes on with the outcome of the first token. -/
theorem resume_cons {s : Partial} {t : Token} {next : Progress} (h : step s t = .ok next)
    (rest : List Token) : resume s (t :: rest) = feed next rest := by
  rw [resume, h]
  cases next <;> rfl

/-- Parameters are collected up to the parenthesis that closes their list. -/
theorem resume_parameters {params : List Token} {names : List String}
    (h : params.map (·.kind) = names.map .identifier) {c : Token} (hc : c.kind = .rightParen)
    (collected : List String) (stack : List Slot) (rest : List Token) :
    resume ⟨.parameters collected, stack⟩ (params ++ c :: rest)
      = resume ⟨.expression, .body (collected.reverse ++ names) :: stack⟩ rest := by
  induction params generalizing names collected with
  | nil =>
    obtain rfl : names = [] := List.map_eq_nil_iff.1 h.symm
    have hstep : step ⟨.parameters collected, stack⟩ c
        = .ok (.more ⟨.expression, .body collected.reverse :: stack⟩) := by
      simp only [step, hc]
    rw [List.nil_append, resume_cons hstep, List.append_nil, feed]
  | cons t params ih =>
    -- The names are collected in front, so the list of them is reversed in the end.
    cases names with
    | nil => simp at h
    | cons name names =>
      obtain ⟨ht, hrest⟩ := List.cons.inj h
      have hstep : step ⟨.parameters collected, stack⟩ t
          = .ok (.more ⟨.parameters (name :: collected), stack⟩) := by
        simp only [step, ht]
      rw [List.cons_append, resume_cons hstep, feed, ih hrest, List.reverse_cons,
        List.append_assoc, List.singleton_append]

/-- A closing parenthesis delivers the form that was complete. -/
theorem resume_closing {c : Token} (hc : c.kind = .rightParen) (e : Expr) (stack : List Slot)
    (rest : List Token) : resume ⟨.closing e, stack⟩ (c :: rest) = feed (deliver e stack) rest :=
  resume_cons (by simp only [step, hc]) rest

/-- Whether tokens may be read as an expression on the stack: at the head of a form they must not
begin with a special name. -/
def Fits (ts : List Token) (stack : List Slot) : Prop :=
  ∀ rest, stack = .form :: rest → startsSpecial ts = false

/-- Only the first token of a form can be a special name. -/
theorem fits_of_ne_form {ts : List Token} {slot : Slot} (h : slot ≠ .form) (stack : List Slot) :
    Fits ts (slot :: stack) := by
  intro rest hform
  exact absurd (List.cons.inj hform).1 h

/-- An opening parenthesis begins a form. -/
theorem step_open {o : Token} (ho : o.kind = .leftParen) (stack : List Slot) :
    step ⟨.expression, stack⟩ o = .ok (.more ⟨.expression, .form :: stack⟩) := by
  simp only [step, expressionToken, ho]

/-- At the head of a form, `lambda` asks for a list of parameters. -/
theorem step_lambda {t : Token} (ht : t.kind = .identifier "lambda") (stack : List Slot) :
    step ⟨.expression, .form :: stack⟩ t = .ok (.more ⟨.parameterList, stack⟩) := by
  simp only [step, expressionToken, ht, headName, if_true]

/-- An opening parenthesis begins the list of parameters. -/
theorem step_parameterList {o : Token} (ho : o.kind = .leftParen) (stack : List Slot) :
    step ⟨.parameterList, stack⟩ o = .ok (.more ⟨.parameters [], stack⟩) := by
  simp only [step, ho]

/-- At the head of a form, the name of a conditional asks for its guard. -/
theorem step_conditional {t : Token} {name : String} (ht : t.kind = .identifier name)
    (hname : name ∈ conditionalNames) (stack : List Slot) :
    step ⟨.expression, .form :: stack⟩ t = .ok (.more ⟨.expression, .guard :: stack⟩) := by
  have hlambda : name ≠ "lambda" := by
    rintro rfl
    exact absurd hname (by decide)
  simp only [step, expressionToken, ht, headName, if_neg hlambda, if_pos hname]

/-- A colon asks for the name of a keyword. -/
theorem step_colon {t : Token} (ht : t.kind = .colon) (stack : List Slot) :
    step ⟨.expression, stack⟩ t = .ok (.more ⟨.keyword t.position, stack⟩) := by
  simp only [step, expressionToken, ht]

/-- A word directly after a colon is delivered as a keyword. -/
theorem step_keyword {t : Token} {colon : Position} (ht : namesKeyword t.kind = true)
    (htouches : touches colon t = true) (stack : List Slot) :
    step ⟨.keyword colon, stack⟩ t = .ok (deliver (.keyword t.lexeme) stack) := by
  simp only [step, keywordToken, htouches, if_true]
  cases hkind : t.kind <;> simp_all [namesKeyword]

/-- A closing parenthesis after the arguments delivers the application. -/
theorem step_close {c : Token} (hc : c.kind = .rightParen) (e : Expr) (es : List Expr)
    (stack : List Slot) :
    step ⟨.expression, .application e (es.reverse ++ []) :: stack⟩ c
      = .ok (deliver (.application e es) stack) := by
  simp only [step, expressionToken, hc, closeForm, List.append_nil, List.reverse_reverse]

/-- A name is delivered as a variable, except for a special name at the head of a form. -/
theorem step_identifier {t : Token} {name : String} (ht : t.kind = .identifier name)
    {stack : List Slot} (hfits : Fits [t] stack) :
    step ⟨.expression, stack⟩ t = .ok (deliver (.var name) stack) := by
  simp only [step, expressionToken, ht]
  split
  · next rest =>
    have hspecial : startsSpecial [t] = false := hfits rest rfl
    obtain ⟨kind, lexeme, p⟩ := t
    obtain rfl : kind = .identifier name := ht
    simp [startsSpecial, specialNames] at hspecial
    simp [headName, hspecial]
  · rfl

mutual

/-- An expression that is derived is read and delivered, and reading goes on with what follows. -/
theorem Derives.resume_eq {ts : List Token} {e : Expr} (h : Derives ts e) {stack : List Slot}
    (hfits : Fits ts stack) (rest : List Token) :
    resume ⟨.expression, stack⟩ (ts ++ rest) = feed (deliver e stack) rest := by
  cases h with
  | var ht => exact resume_cons (step_identifier ht hfits) rest
  | @number t x ht =>
    have hstep : step ⟨.expression, stack⟩ t = .ok (deliver (.number x) stack) := by
      simp only [step, expressionToken, ht]
    exact resume_cons hstep rest
  | @bool t b ht =>
    have hstep : step ⟨.expression, stack⟩ t = .ok (deliver (.bool b) stack) := by
      simp only [step, expressionToken, ht]
    exact resume_cons hstep rest
  | @null t ht =>
    have hstep : step ⟨.expression, stack⟩ t = .ok (deliver .null stack) := by
      simp only [step, expressionToken, ht]
    exact resume_cons hstep rest
  | keyword hcolon ht htouches =>
    rw [List.cons_append, resume_cons (step_colon hcolon stack), feed]
    exact resume_cons (step_keyword ht htouches stack) rest
  | lambda ho hword ho' hparams hc' hbody hc =>
    rw [List.cons_append, resume_cons (step_open ho stack), feed, List.cons_append,
      resume_cons (step_lambda hword stack), feed, List.cons_append,
      resume_cons (step_parameterList ho' stack), feed, List.append_assoc, List.cons_append,
      List.append_assoc, resume_parameters hparams hc',
      hbody.resume_eq (fits_of_ne_form (by simp) stack)]
    exact resume_closing hc _ stack rest
  | conditional ho hword hname h₁ h₂ h₃ hc =>
    rw [List.cons_append, resume_cons (step_open ho stack), feed, List.cons_append,
      resume_cons (step_conditional hword hname stack), feed, List.append_assoc,
      List.append_assoc, List.append_assoc,
      h₁.resume_eq (fits_of_ne_form (by simp) stack), deliver, feed,
      h₂.resume_eq (fits_of_ne_form (by simp) stack), deliver, feed,
      h₃.resume_eq (fits_of_ne_form (by simp) stack)]
    exact resume_closing hc _ stack rest
  | application ho hspecial hhead hargs hc =>
    -- The head is read where a special name would be one, which is why it must not begin with one.
    rw [List.cons_append, resume_cons (step_open ho stack), feed, List.append_assoc,
      List.append_assoc, hhead.resume_eq (fun _ _ => hspecial), deliver, feed, hargs.resume_eq]
    exact resume_cons (step_close hc _ _ stack) rest

/-- Expressions after the head of an application become its arguments. -/
theorem DerivesAll.resume_eq {ts : List Token} {es : List Expr} (h : DerivesAll ts es)
    (head : Expr) (args : List Expr) (stack : List Slot) (rest : List Token) :
    resume ⟨.expression, .application head args :: stack⟩ (ts ++ rest)
      = resume ⟨.expression, .application head (es.reverse ++ args) :: stack⟩ rest := by
  cases h with
  | nil => rfl
  | cons h hs =>
    rw [List.append_assoc, h.resume_eq (fits_of_ne_form (by simp) stack), deliver, feed,
      hs.resume_eq, List.reverse_cons, List.append_assoc, List.singleton_append]

end

/-- An expression that is derived is read whole. -/
theorem Derives.expression_eq {ts : List Token} {e : Expr} (h : Derives ts e) (rest : List Token) :
    expression (ts ++ rest) = (.ok e, rest) := by
  have hfits : Fits ts [] := by
    intro rest hrest
    simp at hrest
  rw [expression, Partial.start, h.resume_eq hfits, deliver, feed]

/-- An expression in a statement, with the parenthesis that closes the statement, is read whole. -/
theorem Derives.closedBy_eq {ts : List Token} {e : Expr} (h : Derives ts e) {c : Token}
    (hc : c.kind = .rightParen) (make : Expr → Statement) (rest : List Token) :
    closedBy make (ts ++ c :: rest) = (.ok (make e), rest) := by
  simp only [closedBy, h.expression_eq, closeStatement, hc]

/-- A statement that is derived is read whole. -/
theorem DerivesStatement.statement_eq {ts : List Token} {s : Statement}
    (h : DerivesStatement ts s) (rest : List Token) : statement (ts ++ rest) = (.ok s, rest) := by
  cases h with
  | @define o word t c ts keyword name e ho hword hkeyword ht h hc =>
    obtain ⟨_, _, _⟩ := o
    obtain ⟨_, _, _⟩ := word
    obtain rfl := ho
    obtain rfl := hword
    simp only [List.cons_append, statement, if_pos hkeyword, definition, ht, List.append_assoc,
      List.nil_append]
    exact h.closedBy_eq hc _ rest
  | @print o word c ts keyword e ho hword hkeyword h hc =>
    obtain ⟨_, _, _⟩ := o
    obtain ⟨_, _, _⟩ := word
    obtain rfl := ho
    obtain rfl := hword
    have hdefine : keyword ∉ defineNames := by
      revert keyword
      decide
    simp only [List.cons_append, statement, if_neg hdefine, if_pos hkeyword, List.append_assoc,
      List.nil_append]
    exact h.closedBy_eq hc _ rest

/-- A statement does not begin at the end of the input. -/
theorem DerivesStatement.atEnd_eq {ts : List Token} {s : Statement} (h : DerivesStatement ts s)
    (rest : List Token) : atEnd (ts ++ rest) = false := by
  cases h <;> simp_all [atEnd]

/-- Statements that are derived are read up to the end of the input. -/
theorem DerivesProgram.statements_eq {ts : List Token} {ss : List Statement}
    (h : DerivesProgram ts ss) {rest : List Token} (hend : atEnd rest = true) :
    statements (ts ++ rest) = (.ok ss, rest) := by
  induction h with
  | nil =>
    rw [List.nil_append, statements, if_pos hend]
  | cons h hs ih =>
    rw [statements, List.append_assoc, h.atEnd_eq]
    simp only [Bool.false_eq_true, if_false]
    split
    · next heq => simp [h.statement_eq] at heq
    · next heq =>
      rw [h.statement_eq, Prod.mk.injEq, Except.ok.injEq] at heq
      obtain ⟨rfl, rfl⟩ := heq
      rw [ih]

end ObjectLisp.Reader
