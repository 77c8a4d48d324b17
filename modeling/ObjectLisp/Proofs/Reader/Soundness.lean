import ObjectLisp.Proofs.Reader.Grammar

/-!
# What is read is derived

The reader accepts nothing but what the grammar derives. It is a machine with a stack, so a reading
that succeeds does not show by itself which tokens belong to which expression. The tokens of the
first expression are found by induction on the length of the token list: where an expression may
begin, its first token says which rule applies, and the parts of a form are expressions of shorter
lists. Once the tokens of a part are known, `Derives.resume_eq` says where the machine is after
them, so what the stack holds below the form never matters.

With the converse this gives one statement for each reading function: it succeeds exactly on a
derivation, and leaves the tokens after it.
-/

namespace ObjectLisp.Reader

/-! ## Readings that succeed -/

/-- Reading goes on to the end of an expression. -/
def Succeeds (next : Progress) (ts : List Token) : Prop := ∃ e rest, feed next ts = (.ok e, rest)

/-- A reading that goes on and succeeds takes a token. -/
theorem Succeeds.exists_step {s : Partial} {ts : List Token} (h : Succeeds (.more s) ts) :
    ∃ t rest next, ts = t :: rest ∧ step s t = .ok next ∧ Succeeds next rest := by
  obtain ⟨e, rest', h⟩ := h
  change resume s ts = (.ok e, rest') at h
  cases ts with
  | nil => simp [resume] at h
  | cons t rest =>
    cases hstep : step s t with
    | error err => simp [resume, hstep] at h
    | ok next =>
      rw [resume_cons hstep] at h
      exact ⟨t, rest, next, rfl, hstep, e, rest', h⟩

/-- A derived expression at the front is read first. -/
theorem Succeeds.deliver {us vs : List Token} {e : Expr} {stack : List Slot}
    (h : Succeeds (.more ⟨.expression, stack⟩) (us ++ vs)) (hderives : Derives us e)
    (hfits : Fits us stack) : Succeeds (Reader.deliver e stack) vs := by
  obtain ⟨e', rest, h⟩ := h
  refine ⟨e', rest, ?_⟩
  rw [← h, feed, hderives.resume_eq hfits]

/-! ## Tokens that have to be there -/

/-- A complete form is closed. -/
theorem Succeeds.closing {e : Expr} {stack : List Slot} {ts : List Token}
    (h : Succeeds (.more ⟨.closing e, stack⟩) ts) :
    ∃ c rest, ts = c :: rest ∧ c.kind = .rightParen ∧ Succeeds (Reader.deliver e stack) rest := by
  obtain ⟨c, rest, next, rfl, hstep, h⟩ := h.exists_step
  cases hc : c.kind <;> simp only [step, hc] at hstep <;> cases hstep
  exact ⟨c, rest, rfl, hc, h⟩

/-- After `lambda` a list of parameters begins. -/
theorem Succeeds.parameterList {stack : List Slot} {ts : List Token}
    (h : Succeeds (.more ⟨.parameterList, stack⟩) ts) :
    ∃ o rest, ts = o :: rest ∧ o.kind = .leftParen
      ∧ Succeeds (.more ⟨.parameters [], stack⟩) rest := by
  obtain ⟨o, rest, next, rfl, hstep, h⟩ := h.exists_step
  cases ho : o.kind <;> simp only [step, ho] at hstep <;> cases hstep
  exact ⟨o, rest, rfl, ho, h⟩

/-- A list of parameters holds names and is closed. -/
theorem Succeeds.parameters {collected : List String} {stack : List Slot} {ts : List Token}
    (h : Succeeds (.more ⟨.parameters collected, stack⟩) ts) :
    ∃ params names c rest, ts = params ++ c :: rest
      ∧ params.map (·.kind) = names.map .identifier ∧ c.kind = .rightParen
      ∧ Succeeds (.more ⟨.expression, .body (collected.reverse ++ names) :: stack⟩) rest := by
  induction ts generalizing collected with
  | nil =>
    obtain ⟨t, rest, next, hts, -⟩ := h.exists_step
    nomatch hts
  | cons t ts ih =>
    obtain ⟨t, rest, next, hts, hstep, h⟩ := h.exists_step
    obtain ⟨rfl, rfl⟩ := List.cons.inj hts
    cases ht : t.kind <;> simp only [step, ht] at hstep <;> cases hstep
    · exact ⟨[], [], t, ts, rfl, rfl, ht, by rwa [List.append_nil]⟩
    · next name =>
      obtain ⟨params, names, c, rest, rfl, hparams, hc, h⟩ := ih h
      rw [List.reverse_cons, List.append_assoc, List.singleton_append] at h
      exact ⟨t :: params, name :: names, c, rest, rfl, by simp [ht, hparams], hc, h⟩

/-- A colon has the name of a keyword directly after it. -/
theorem Succeeds.keyword {colon : Position} {stack : List Slot} {ts : List Token}
    (h : Succeeds (.more ⟨.keyword colon, stack⟩) ts) :
    ∃ t rest, ts = t :: rest ∧ namesKeyword t.kind = true ∧ touches colon t = true
      ∧ Succeeds (Reader.deliver (.keyword t.lexeme) stack) rest := by
  obtain ⟨t, rest, next, rfl, hstep, h⟩ := h.exists_step
  have hnames : namesKeyword t.kind = true := by
    cases ht : t.kind <;> simp only [step, keywordToken, ht] at hstep <;> first | rfl | cases hstep
  have htouches : touches colon t = true := by
    cases htouches : touches colon t with
    | true => rfl
    | false => cases ht : t.kind <;> simp [step, keywordToken, ht, htouches] at hstep
  rw [step_keyword hnames htouches] at hstep
  cases hstep
  exact ⟨t, rest, rfl, hnames, htouches, h⟩

/-- Where no application is open, an expression is not closed before it has begun. -/
theorem Succeeds.ne_rightParen {stack : List Slot} {t : Token} {rest : List Token}
    (h : Succeeds (.more ⟨.expression, stack⟩) (t :: rest))
    (hstack : ∀ head args outer, stack ≠ .application head args :: outer) :
    t.kind ≠ .rightParen := by
  intro ht
  obtain ⟨t, rest, next, hts, hstep, -⟩ := h.exists_step
  obtain ⟨rfl, rfl⟩ := List.cons.inj hts
  simp only [step, expressionToken, ht, closeForm] at hstep
  split at hstep
  · cases hstep
  · next head args outer => exact hstack head args outer rfl
  · cases hstep
  · cases hstep

/-! ## The first expression -/

/-- The tokens begin with those of an expression, and the reading that delivers it to the stack
succeeds. -/
def StartsDerived (ts : List Token) (stack : List Slot) : Prop :=
  ∃ us vs e, ts = us ++ vs ∧ Derives us e ∧ Succeeds (deliver e stack) vs

/-- Readings of up to `n` tokens that succeed begin with a derived expression, wherever one may
begin. -/
def ReadsDerived (n : Nat) : Prop :=
  ∀ ⦃ts : List Token⦄ ⦃stack : List Slot⦄, ts.length ≤ n →
    Succeeds (.more ⟨.expression, stack⟩) ts → Fits ts stack →
    (∀ t rest, ts = t :: rest → t.kind ≠ .rightParen) → StartsDerived ts stack

/-- An expression has a token. -/
theorem Derives.length_pos {ts : List Token} {e : Expr} (h : Derives ts e) : 0 < ts.length := by
  cases h <;> simp

/-- Whether tokens begin with a special name is seen at the first of them. -/
theorem Derives.startsSpecial_append {us : List Token} {e : Expr} (h : Derives us e)
    (vs : List Token) : startsSpecial (us ++ vs) = startsSpecial us := by
  cases us with
  | nil => exact absurd h.length_pos (Nat.lt_irrefl 0)
  | cons t us =>
    obtain ⟨kind, _, _⟩ := t
    cases kind <;> rfl

namespace ReadsDerived

variable {n : Nat} {ts : List Token} {stack : List Slot}

/-- The next part of a form that is no application is derived. -/
theorem part (hn : ReadsDerived n) {slot : Slot} (hform : slot ≠ .form)
    (hslot : ∀ head args, slot ≠ .application head args) (hlen : ts.length ≤ n)
    (h : Succeeds (.more ⟨.expression, slot :: stack⟩) ts) : StartsDerived ts (slot :: stack) := by
  refine hn hlen h (fits_of_ne_form hform stack) ?_
  rintro t rest rfl
  refine h.ne_rightParen fun head args outer heq => ?_
  exact hslot head args (List.cons.inj heq).1

/-- After `lambda` there are a list of parameters and a body, and the form is closed. -/
theorem lambda (hn : ReadsDerived n) {o word : Token} (ho : o.kind = .leftParen)
    (hword : word.kind = .identifier "lambda") (hlen : ts.length ≤ n)
    (h : Succeeds (.more ⟨.parameterList, stack⟩) ts) : StartsDerived (o :: word :: ts) stack := by
  obtain ⟨o', rest, rfl, ho', h⟩ := h.parameterList
  obtain ⟨params, names, c', rest, rfl, hparams, hc', h⟩ := h.parameters
  have hlen' : rest.length ≤ n := by
    simp only [List.length_cons, List.length_append] at hlen
    omega
  obtain ⟨body, rest, b, rfl, hbody, h⟩ := hn.part (by simp) (by simp) hlen' h
  obtain ⟨c, rest, rfl, hc, h⟩ := h.closing
  refine ⟨_, rest, _, ?_, .lambda ho hword ho' hparams hc' hbody hc, h⟩
  simp

/-- After the name of a conditional there are three expressions, and the form is closed. -/
theorem conditional (hn : ReadsDerived n) {o word : Token} {name : String}
    (ho : o.kind = .leftParen) (hword : word.kind = .identifier name)
    (hname : name ∈ conditionalNames) (hlen : ts.length ≤ n)
    (h : Succeeds (.more ⟨.expression, .guard :: stack⟩) ts) :
    StartsDerived (o :: word :: ts) stack := by
  obtain ⟨ts₁, rest, e₁, rfl, h₁, h⟩ := hn.part (by simp) (by simp) hlen h
  rw [List.length_append] at hlen
  obtain ⟨ts₂, rest, e₂, rfl, h₂, h⟩ := hn.part (by simp) (by simp) (by omega) h
  rw [List.length_append] at hlen
  obtain ⟨ts₃, rest, e₃, rfl, h₃, h⟩ := hn.part (by simp) (by simp) (by omega) h
  obtain ⟨c, rest, rfl, hc, h⟩ := h.closing
  refine ⟨_, rest, _, ?_, .conditional ho hword hname h₁ h₂ h₃ hc, h⟩
  simp

/-- After the head of an application there are its arguments, and the form is closed. -/
theorem arguments (hn : ReadsDerived n) {head : Expr} {args : List Expr} (hlen : ts.length ≤ n)
    (h : Succeeds (.more ⟨.expression, .application head args :: stack⟩) ts) :
    ∃ us es c vs, ts = us ++ c :: vs ∧ DerivesAll us es ∧ c.kind = .rightParen
      ∧ Succeeds (deliver (.application head (args.reverse ++ es)) stack) vs := by
  -- The induction is on the tokens that are left, and each argument takes at least one of them.
  induction hk : ts.length using Nat.strongRecOn generalizing ts args with
  | ind k ih =>
    obtain ⟨t, rest, next, hts, hstep, hnext⟩ := h.exists_step
    by_cases ht : t.kind = .rightParen
    · simp only [step, expressionToken, ht, closeForm] at hstep
      cases hstep
      exact ⟨[], [], t, rest, hts, .nil, ht, by rwa [List.append_nil]⟩
    · have hfirst : ∀ t' rest', ts = t' :: rest' → t'.kind ≠ .rightParen := by
        rintro t' rest' rfl
        obtain ⟨rfl, -⟩ := List.cons.inj hts
        exact ht
      obtain ⟨us, vs, e, rfl, he, hvs⟩ := hn hlen h (fits_of_ne_form (by simp) stack) hfirst
      have hpos := he.length_pos
      rw [List.length_append] at hlen hk
      obtain ⟨us', es, c, vs, rfl, hes, hc, h⟩ := ih vs.length (by omega) (by omega) hvs rfl
      rw [List.reverse_cons, List.append_assoc, List.singleton_append] at h
      exact ⟨us ++ us', e :: es, c, vs, by simp, .cons he hes, hc, h⟩

/-- A form that does not begin with a special name is an application. -/
theorem application (hn : ReadsDerived n) {o : Token} (ho : o.kind = .leftParen)
    (hspecial : startsSpecial ts = false) (hlen : ts.length ≤ n)
    (h : Succeeds (.more ⟨.expression, .form :: stack⟩) ts) : StartsDerived (o :: ts) stack := by
  have hfirst : ∀ t rest, ts = t :: rest → t.kind ≠ .rightParen := by
    rintro t rest rfl
    exact h.ne_rightParen (by simp)
  obtain ⟨us, vs, e, rfl, he, h⟩ := hn hlen h (fun _ _ => hspecial) hfirst
  rw [List.length_append] at hlen
  obtain ⟨us', es, c, vs, rfl, hes, hc, h⟩ := hn.arguments (by omega) h
  rw [he.startsSpecial_append] at hspecial
  exact ⟨_, vs, _, by simp, .application ho hspecial he hes hc, h⟩

/-- What stands after an opening parenthesis makes it a form. -/
theorem form (hn : ReadsDerived n) {o : Token} (ho : o.kind = .leftParen) (hlen : ts.length ≤ n)
    (h : Succeeds (.more ⟨.expression, .form :: stack⟩) ts) : StartsDerived (o :: ts) stack := by
  cases hspecial : startsSpecial ts with
  | false => exact hn.application ho hspecial hlen h
  | true =>
    obtain ⟨⟨kind, lexeme, p⟩, rest, next, rfl, hstep, h⟩ := h.exists_step
    rw [List.length_cons] at hlen
    cases kind with
    | identifier name =>
      simp only [step, expressionToken, headName] at hstep
      split at hstep
      · next hlambda =>
        cases hstep
        exact hn.lambda ho (congrArg _ hlambda) (by omega) h
      · split at hstep
        · next hname =>
          cases hstep
          exact hn.conditional ho rfl hname (by omega) h
        · split at hstep
          · cases hstep
          · next hlambda hname hother =>
            -- No other name is special.
            simp [startsSpecial, specialNames, hlambda] at hspecial
            exact absurd (hspecial.resolve_left hname) hother
    | leftParen | rightParen | colon | number | bool | null | endOfInput =>
      exact absurd hspecial Bool.false_ne_true

end ReadsDerived

/-- Every reading that succeeds begins with a derived expression, wherever one may begin. -/
theorem readsDerived (n : Nat) : ReadsDerived n := by
  induction n with
  | zero =>
    intro ts stack hlen h _ _
    obtain ⟨t, rest, next, rfl, -⟩ := h.exists_step
    simp at hlen
  | succ n ih =>
    intro ts stack hlen h hfits hfirst
    obtain ⟨t, rest, next, rfl, hstep, hnext⟩ := h.exists_step
    rw [List.length_cons] at hlen
    -- A token that is an expression by itself is read in one step.
    have atom : ∀ {e : Expr}, Derives [t] e → StartsDerived (t :: rest) stack := by
      intro e he
      have hfits' : Fits [t] stack := fun outer hstack =>
        he.startsSpecial_append rest ▸ hfits outer hstack
      refine ⟨[t], rest, e, rfl, he, ?_⟩
      exact Succeeds.deliver (by rwa [List.singleton_append]) he hfits'
    cases ht : t.kind with
    | leftParen =>
      rw [step_open ht] at hstep
      cases hstep
      exact ih.form ht (by omega) hnext
    | rightParen => exact absurd ht (hfirst t rest rfl)
    | colon =>
      rw [step_colon ht] at hstep
      cases hstep
      obtain ⟨name, rest, rfl, hname, htouches, hnext⟩ := hnext.keyword
      exact ⟨[t, name], rest, _, rfl, .keyword ht hname htouches, hnext⟩
    | number x => exact atom (.number ht)
    | bool b => exact atom (.bool ht)
    | null => exact atom (.null ht)
    | identifier name => exact atom (.var ht)
    | endOfInput =>
      simp only [step, expressionToken, ht] at hstep
      nomatch hstep

/-! ## Expressions -/

/-- An expression is read exactly where one is derived, and what follows it is left. -/
theorem expression_eq_ok_iff {ts rest : List Token} {e : Expr} :
    expression ts = (.ok e, rest) ↔ ∃ us, ts = us ++ rest ∧ Derives us e := by
  constructor
  · intro h
    have hsucceeds : Succeeds (.more .start) ts := ⟨e, rest, h⟩
    -- Nothing is open at the start, so what was read has to be one expression.
    have hfits : Fits ts [] := by
      intro rest hrest
      nomatch hrest
    have hfirst : ∀ t rest, ts = t :: rest → t.kind ≠ .rightParen := by
      rintro t rest rfl
      exact hsucceeds.ne_rightParen (by simp)
    obtain ⟨us, vs, e', rfl, hderives, -⟩ :=
      readsDerived ts.length (Nat.le_refl _) hsucceeds hfits hfirst
    rw [hderives.expression_eq] at h
    cases h
    exact ⟨us, rfl, hderives⟩
  · rintro ⟨us, rfl, hderives⟩
    exact hderives.expression_eq rest

/-- Where two lists of tokens begin with an expression, it is the same one. -/
theorem Derives.append_inj {us us' rest rest' : List Token} {e e' : Expr} (h : Derives us e)
    (h' : Derives us' e') (heq : us ++ rest = us' ++ rest') : us = us' ∧ e = e' ∧ rest = rest' := by
  have hread := h.expression_eq rest
  rw [heq, h'.expression_eq] at hread
  cases hread
  exact ⟨List.append_cancel_right heq, rfl, rfl⟩

/-! ## Statements and programs -/

/-- A statement made of an expression is read exactly where an expression is derived and closed. -/
theorem closedBy_eq_ok_iff {make : Expr → Statement} {ts rest : List Token} {s : Statement} :
    closedBy make ts = (.ok s, rest) ↔ ∃ us c e, ts = us ++ c :: rest ∧ Derives us e
      ∧ c.kind = .rightParen ∧ s = make e := by
  constructor
  · intro h
    unfold closedBy at h
    split at h
    · next e mid hread =>
      obtain ⟨us, rfl, hderives⟩ := expression_eq_ok_iff.1 hread
      unfold closeStatement at h
      split at h
      · nomatch h
      · next c rest' =>
        split at h
        · next hc =>
          cases h
          exact ⟨us, c, e, rfl, hderives, hc, rfl⟩
        · nomatch h
        · nomatch h
    · nomatch h
  · rintro ⟨us, c, e, rfl, hderives, hc, rfl⟩
    exact hderives.closedBy_eq hc make rest

/-- An expression by itself is no statement. -/
theorem bareExpression_ne_ok {ts rest : List Token} {s : Statement} :
    bareExpression ts ≠ (.ok s, rest) := by
  unfold bareExpression
  split <;> simp

/-- A statement is read exactly where one is derived, and what follows it is left. -/
theorem statement_eq_ok_iff {ts rest : List Token} {s : Statement} :
    statement ts = (.ok s, rest) ↔ ∃ us, ts = us ++ rest ∧ DerivesStatement us s := by
  constructor
  · intro h
    -- The first two tokens say which statement it is; everything else fails.
    unfold statement at h
    split at h
    · next lexeme p keyword lexeme' p' ts =>
      split at h
      · next hkeyword =>
        unfold definition at h
        split at h
        · nomatch h
        · next t ts =>
          split at h
          · next name ht =>
            obtain ⟨us, c, e, rfl, hderives, hc, rfl⟩ := closedBy_eq_ok_iff.1 h
            exact ⟨⟨_, lexeme, p⟩ :: ⟨_, lexeme', p'⟩ :: t :: (us ++ [c]), by simp,
              .define rfl rfl hkeyword ht hderives hc⟩
          · nomatch h
          · nomatch h
      · split at h
        · next hkeyword =>
          obtain ⟨us, c, e, rfl, hderives, hc, rfl⟩ := closedBy_eq_ok_iff.1 h
          exact ⟨⟨_, lexeme, p⟩ :: ⟨_, lexeme', p'⟩ :: (us ++ [c]), by simp,
            .print rfl rfl hkeyword hderives hc⟩
        · exact absurd h bareExpression_ne_ok
    · exact absurd h bareExpression_ne_ok
  · rintro ⟨us, rfl, hderives⟩
    exact hderives.statement_eq rest

/-- Statements are read exactly where they are derived up to the end of the input. -/
theorem statements_eq_ok_iff {ts rest : List Token} {ss : List Statement} :
    statements ts = (.ok ss, rest) ↔
      ∃ us, ts = us ++ rest ∧ DerivesProgram us ss ∧ atEnd rest = true := by
  constructor
  · intro h
    -- Reading ends at the end of the tokens, and each statement before it takes its tokens.
    fun_induction statements ts generalizing ss rest with
    | case1 ts hend =>
      cases h
      exact ⟨[], rfl, .nil, hend⟩
    | case2 => nomatch h
    | case3 ts _ s mid hs _ ss' rest' hrest ih =>
      cases h
      obtain ⟨us, rfl, hderives⟩ := statement_eq_ok_iff.1 hs
      obtain ⟨vs, rfl, hderives', hend⟩ := ih hrest
      exact ⟨us ++ vs, by simp, .cons hderives hderives', hend⟩
    | case4 => nomatch h
  · rintro ⟨us, rfl, hderives, hend⟩
    exact hderives.statements_eq hend

end ObjectLisp.Reader
