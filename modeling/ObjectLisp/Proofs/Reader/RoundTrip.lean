import ObjectLisp.Proofs.Expr
import ObjectLisp.Proofs.Reader.Grammar
import ObjectLisp.Proofs.Token.Words

/-!
# Reading what was written

The text of an expression is read as an equal expression, and the texts of statements, one a line,
as an equal program (`read_text`). This is said of what is printable (`Expr.isPrintable`): names have
to be names to the lexer, numbers must not need an exponent, no value may be held, and the head of an
application must not be a name that makes a form special.

Nothing is proved about the lexer or the reader here. `Denotes` joins the two sides, the tokens that
a text spans and the expressions that the grammar derives from tokens, and it holds of the text of
an expression when it holds of the texts of its parts.
-/

namespace ObjectLisp

open Lexer Reader

/-! ## What can be written and read back -/

/-- Whether a name can stand for a variable or a parameter: it is a name and not a reserved word. -/
def isVariableName (name : String) : Bool :=
  isName name.toList && name != "true" && name != "false" && name != "null"

namespace Expr

/-- Whether an expression is a variable with a special name. -/
def isSpecial : Expr → Bool
  | var name => specialNames.contains name
  | _ => false

mutual

/-- Whether an expression has a text that stands for it. -/
def isPrintable : Expr → Bool
  | var name => isVariableName name
  | number x => Number.isPositional x
  | bool _ | null => true
  | keyword name => isName name.toList
  | lambda params body => params.all isVariableName && body.isPrintable
  | application head args => !head.isSpecial && head.isPrintable && allPrintable args
  | conditional guard consequent alternative =>
    guard.isPrintable && consequent.isPrintable && alternative.isPrintable
  | value _ => false

/-- Whether all expressions have a text that stands for them. -/
def allPrintable : List Expr → Bool
  | [] => true
  | e :: rest => e.isPrintable && allPrintable rest

end

end Expr

/-- Whether a statement has a text that stands for it. -/
def Statement.isPrintable : Statement → Bool
  | define name value => isVariableName name && value.isPrintable
  | print expr => expr.isPrintable

/-! ## Texts of expressions -/

/-- The text `cs`, wherever it stands, is read as an expression that equals `e`. -/
def Denotes (cs : List Char) (e : Expr) : Prop :=
  ∀ p rest, endsWord rest = true → ∃ ts q e', Spans p cs rest ts q ∧ Derives ts e'
    ∧ (∀ same, e'.equal same e = true) ∧ (e.isSpecial = false → startsSpecial ts = false)

/-- The name of a variable is its token. -/
theorem nameKind_variable {name : String} (h : isVariableName name = true) :
    isName name.toList = true ∧ nameKind name = .identifier name := by
  simp only [isVariableName, Bool.and_eq_true, bne_iff_ne] at h
  obtain ⟨⟨⟨hname, htrue⟩, hfalse⟩, hnull⟩ := h
  simp [nameKind, hname, htrue, hfalse, hnull]

/-- Any name is the name of a keyword. -/
theorem namesKeyword_nameKind (name : String) : namesKeyword (nameKind name) = true := by
  unfold nameKind
  split
  · rfl
  · split
    · rfl
    · split <;> rfl

/-- The name of a variable denotes it, unless it is a reserved word. -/
theorem denotes_var {name : String} (h : isVariableName name = true) :
    Denotes name.toList (.var name) := by
  intro p rest hrest
  obtain ⟨hname, hkind⟩ := nameKind_variable h
  refine ⟨_, _, _, spans_name hname hrest p, .var hkind, fun same => ?_, fun hspecial => ?_⟩
  · simp [Expr.equal]
  · rw [hkind]
    exact hspecial

/-- The text of a number without an exponent denotes a number that is equal, as `0` does for `-0`. -/
theorem denotes_number {x : Float} (h : Number.isPositional x = true) :
    Denotes (Number.text x).toList (.number x) := by
  intro p rest hrest
  obtain ⟨y, heq, hspans⟩ := spans_number h hrest p
  exact ⟨_, _, _, hspans, .number rfl, fun same => heq, fun _ => rfl⟩

/-- The words for the truth values denote them. -/
theorem denotes_bool (b : Bool) : Denotes (if b then "true" else "false").toList (.bool b) := by
  intro p rest hrest
  cases b with
  | true =>
    exact ⟨_, _, _, spans_name (by decide) hrest p, .bool rfl, fun same => rfl, fun _ => rfl⟩
  | false =>
    exact ⟨_, _, _, spans_name (by decide) hrest p, .bool rfl, fun same => rfl, fun _ => rfl⟩

/-- The word for null denotes it. -/
theorem denotes_null : Denotes "null".toList .null := by
  intro p rest hrest
  exact ⟨_, _, _, spans_name (by decide) hrest p, .null rfl, fun same => rfl, fun _ => rfl⟩

/-- A keyword may have any name, reserved words included, since its colon touches the name. -/
theorem denotes_keyword {name : String} (h : isName name.toList = true) :
    Denotes (':' :: name.toList) (.keyword name) := by
  intro p rest hrest
  have hspans := (spans_mark (by decide : markKind? ':' = some .colon) p _).append
    (spans_name h hrest (p.right 1))
  refine ⟨_, _, _, hspans, .keyword rfl (namesKeyword_nameKind name) ?_, fun same => ?_,
    fun _ => rfl⟩
  · simp [touches]
  · simp [Expr.equal]

/-- The parameters of a lambda are the tokens of their names. -/
theorem spans_parameters {params : List String} (h : ∀ name ∈ params, isVariableName name = true) :
    ∀ p rest, endsWord rest = true → ∃ ts q, Spans p (" ".intercalate params).toList rest ts q
      ∧ ts.map (·.kind) = params.map .identifier := by
  induction params with
  | nil =>
    intro p rest _
    exact ⟨[], p, spans_nil p rest, rfl⟩
  | cons name params ih =>
    intro p rest hrest
    obtain ⟨hname, hkind⟩ := nameKind_variable (h name List.mem_cons_self)
    -- The last name is followed by the parenthesis, any other one by a space.
    cases params with
    | nil =>
      rw [String.intercalate_singleton]
      refine ⟨_, _, spans_name hname hrest p, ?_⟩
      simp [hkind]
    | cons name' params =>
      obtain ⟨ts, q, hspans, hkinds⟩ := ih (fun n hn => h n (List.mem_cons_of_mem _ hn))
        ((p.right name.toList.length).right 1) rest hrest
      have htext : (" ".intercalate (name :: name' :: params)).toList
          = name.toList ++ ' ' :: (" ".intercalate (name' :: params)).toList := by
        simp [String.intercalate_cons_cons]
      rw [htext]
      refine ⟨_, q, hspans.name hname, ?_⟩
      simp [hkind, hkinds]

/-- A lambda is denoted by its parameters and a text of its body. -/
theorem denotes_lambda {params : List String} {cs : List Char} {body : Expr}
    (hparams : ∀ name ∈ params, isVariableName name = true) (hbody : Denotes cs body) :
    Denotes ('(' :: ("lambda".toList ++ ' ' :: '(' :: ((" ".intercalate params).toList
      ++ ')' :: ' ' :: (cs ++ [')'])))) (.lambda params body) := by
  intro p rest hrest
  obtain ⟨ts₁, q₁, hspans₁, hkinds⟩ := spans_parameters hparams
    ((((p.right 1).right "lambda".toList.length).right 1).right 1)
    (')' :: ' ' :: (cs ++ [')'] ++ rest)) rfl
  obtain ⟨ts₂, q₂, e', hspans₂, hderives, hequal, -⟩ :=
    hbody ((q₁.right 1).right 1) (')' :: rest) rfl
  -- The spans are put together from the last parenthesis to the first.
  have hspans := ((hspans₁.append (hspans₂.append
    (spans_nil (q₂.right 1) rest).rightParen).space.rightParen).leftParen.name
      (show isName "lambda".toList = true by decide)).leftParen
  refine ⟨_, _, _, hspans, .lambda rfl rfl rfl hkinds rfl hderives rfl, fun same => ?_,
    fun _ => rfl⟩
  simp [Expr.equal, hequal]

/-- A conditional is denoted by texts of its three parts. -/
theorem denotes_conditional {cs₁ cs₂ cs₃ : List Char} {e₁ e₂ e₃ : Expr} (h₁ : Denotes cs₁ e₁)
    (h₂ : Denotes cs₂ e₂) (h₃ : Denotes cs₃ e₃) :
    Denotes ('(' :: ("if".toList ++ ' ' :: (cs₁ ++ ' ' :: (cs₂ ++ ' ' :: (cs₃ ++ [')'])))))
      (.conditional e₁ e₂ e₃) := by
  intro p rest hrest
  obtain ⟨ts₁, q₁, e₁', hspans₁, hderives₁, hequal₁, -⟩ := h₁
    (((p.right 1).right "if".toList.length).right 1)
    (' ' :: (cs₂ ++ ' ' :: (cs₃ ++ [')']) ++ rest)) rfl
  obtain ⟨ts₂, q₂, e₂', hspans₂, hderives₂, hequal₂, -⟩ := h₂ (q₁.right 1)
    (' ' :: (cs₃ ++ [')'] ++ rest)) rfl
  obtain ⟨ts₃, q₃, e₃', hspans₃, hderives₃, hequal₃, -⟩ := h₃ (q₂.right 1) (')' :: rest) rfl
  have hspans := ((hspans₁.append (hspans₂.append (hspans₃.append
    (spans_nil (q₃.right 1) rest).rightParen).space).space).name
      (show isName "if".toList = true by decide)).leftParen
  refine ⟨_, _, _, hspans, .conditional rfl rfl (by decide) hderives₁ hderives₂ hderives₃ rfl,
    fun same => ?_, fun _ => rfl⟩
  simp [Expr.equal, hequal₁, hequal₂, hequal₃]

/-- What follows the head of an application ends a word. -/
theorem endsWord_textArguments (valueText : Value → String) (args : List Expr) (rest : List Char) :
    endsWord ((Expr.textArguments valueText args).toList ++ ')' :: rest) = true := by
  cases args with
  | nil => rfl
  | cons a args =>
    have htext : (Expr.textArguments valueText (a :: args)).toList
        = ' ' :: ((a.text valueText).toList ++ (Expr.textArguments valueText args).toList) := by
      simp [Expr.textArguments]
    rw [htext]
    rfl

/-- The arguments of an application are read as expressions that equal them. -/
theorem spans_arguments {valueText : Value → String} {args : List Expr}
    (h : ∀ a ∈ args, Denotes (a.text valueText).toList a) :
    ∀ p rest, ∃ ts q es, Spans p (Expr.textArguments valueText args).toList (')' :: rest) ts q
      ∧ DerivesAll ts es ∧ ∀ same, Expr.equalLists same es args = true := by
  induction args with
  | nil =>
    intro p rest
    exact ⟨[], p, [], spans_nil p _, .nil, fun same => rfl⟩
  | cons a args ih =>
    intro p rest
    -- The first argument ends where a space or the parenthesis follows it.
    obtain ⟨ts₁, q₁, e', hspans₁, hderives, hequal, -⟩ := h a List.mem_cons_self (p.right 1)
      ((Expr.textArguments valueText args).toList ++ ')' :: rest)
      (endsWord_textArguments valueText args rest)
    obtain ⟨ts₂, q₂, es, hspans₂, hderives', hequal'⟩ :=
      ih (fun b hb => h b (List.mem_cons_of_mem _ hb)) q₁ rest
    have htext : (Expr.textArguments valueText (a :: args)).toList
        = ' ' :: ((a.text valueText).toList ++ (Expr.textArguments valueText args).toList) := by
      simp [Expr.textArguments]
    rw [htext]
    refine ⟨_, q₂, _, (hspans₁.append hspans₂).space, .cons hderives hderives', fun same => ?_⟩
    simp [Expr.equalLists, hequal, hequal']

/-- An application is denoted by texts of its parts, unless its head is a special name. -/
theorem denotes_application {valueText : Value → String} {cs : List Char} {head : Expr}
    {args : List Expr} (hspecial : head.isSpecial = false) (hhead : Denotes cs head)
    (hargs : ∀ a ∈ args, Denotes (a.text valueText).toList a) :
    Denotes ('(' :: (cs ++ ((Expr.textArguments valueText args).toList ++ [')'])))
      (.application head args) := by
  intro p rest hrest
  obtain ⟨ts₁, q₁, e', hspans₁, hderives, hequal, hstarts⟩ := hhead (p.right 1)
    ((Expr.textArguments valueText args).toList ++ ')' :: rest)
    (endsWord_textArguments valueText args rest)
  obtain ⟨ts₂, q₂, es, hspans₂, hderives', hequal'⟩ := spans_arguments hargs q₁ rest
  have hspans := hspans₂.append (spans_nil (q₂.right 1) rest).rightParen
  rw [← List.singleton_append, ← List.append_assoc] at hspans₁
  refine ⟨_, _, _, (hspans₁.append hspans).leftParen,
    .application rfl (hstarts hspecial) hderives hderives' rfl, fun same => ?_, fun _ => rfl⟩
  simp [Expr.equal, hequal, hequal']

/-- Each of several printable expressions is printable. -/
theorem isPrintable_of_mem {args : List Expr} (h : Expr.allPrintable args = true) :
    ∀ a ∈ args, a.isPrintable = true := by
  induction args with
  | nil => simp
  | cons b args ih =>
    simp only [Expr.allPrintable, Bool.and_eq_true] at h
    intro a ha
    rcases List.mem_cons.1 ha with rfl | ha
    · exact h.1
    · exact ih h.2 a ha

/-- The text of a printable expression is read as an expression that equals it. -/
theorem denotes_text (valueText : Value → String) {e : Expr} (h : e.isPrintable = true) :
    Denotes (e.text valueText).toList e := by
  -- One form of the grammar each: the text is taken apart at its spaces, and its parts denote the
  -- parts.
  induction e with
  | var name =>
    rw [Expr.text]
    exact denotes_var h
  | number x =>
    rw [Expr.text]
    exact denotes_number h
  | bool b =>
    rw [Expr.text]
    exact denotes_bool b
  | null =>
    rw [Expr.text]
    exact denotes_null
  | keyword name =>
    have htext : (Expr.text valueText (.keyword name)).toList = ':' :: name.toList := by
      simp [Expr.text]
    rw [htext]
    exact denotes_keyword h
  | lambda params body ih =>
    simp only [Expr.isPrintable, Bool.and_eq_true, List.all_eq_true] at h
    have htext : (Expr.text valueText (.lambda params body)).toList
        = '(' :: ("lambda".toList ++ ' ' :: '(' :: ((" ".intercalate params).toList
          ++ ')' :: ' ' :: ((body.text valueText).toList ++ [')']))) := by
      simp [Expr.text]
    rw [htext]
    exact denotes_lambda h.1 (ih h.2)
  | application head args ihhead ihargs =>
    simp only [Expr.isPrintable, Bool.and_eq_true, Bool.not_eq_true'] at h
    obtain ⟨⟨hspecial, hhead⟩, hargs⟩ := h
    have htext : (Expr.text valueText (.application head args)).toList
        = '(' :: ((head.text valueText).toList
          ++ ((Expr.textArguments valueText args).toList ++ [')'])) := by
      simp [Expr.text]
    rw [htext]
    exact denotes_application hspecial (ihhead hhead)
      fun a ha => ihargs a ha (isPrintable_of_mem hargs a ha)
  | conditional guard consequent alternative ih₁ ih₂ ih₃ =>
    simp only [Expr.isPrintable, Bool.and_eq_true] at h
    have htext : (Expr.text valueText (.conditional guard consequent alternative)).toList
        = '(' :: ("if".toList ++ ' ' :: ((guard.text valueText).toList
          ++ ' ' :: ((consequent.text valueText).toList
            ++ ' ' :: ((alternative.text valueText).toList ++ [')'])))) := by
      simp [Expr.text]
    rw [htext]
    exact denotes_conditional (ih₁ h.1.1) (ih₂ h.1.2) (ih₃ h.2)
  | value v => simp [Expr.isPrintable] at h

/-- The text of a printable expression is the text of one expression. -/
theorem readExpression_text (valueText : Value → String) {e : Expr} (h : e.isPrintable = true) :
    ∃ e', readExpression (e.text valueText) = .ok e' ∧ ∀ same, e'.equal same e = true := by
  obtain ⟨ts, q, e', hspans, hderives, hequal, -⟩ := denotes_text valueText h .start [] rfl
  refine ⟨e', ?_, hequal⟩
  have htokens := hspans [⟨.endOfInput, "", q⟩] (by rw [tokensFrom])
  rw [List.append_nil] at htokens
  show (tokenize (e.text valueText) >>= expressionOfTokens) = .ok e'
  rw [tokenize, htokens]
  show (singleExpression _).1 = _
  rw [singleExpression, hderives.expression_eq]
  rfl

/-! ## Texts of programs -/

/-- The text of a printable statement, wherever it stands, is read as a statement that equals it. -/
theorem spans_statement (valueText : Value → String) {s : Statement} (h : s.isPrintable = true)
    (p : Position) (rest : List Char) :
    ∃ ts q s', Spans p (s.text valueText).toList rest ts q ∧ DerivesStatement ts s'
      ∧ ∀ same, s'.equal same s = true := by
  cases s with
  | define name value =>
    simp only [Statement.isPrintable, Bool.and_eq_true] at h
    obtain ⟨hname, hkind⟩ := nameKind_variable h.1
    obtain ⟨ts, q, e', hspans, hderives, hequal, -⟩ := denotes_text valueText h.2
      ((((((p.right 1).right "define".toList.length).right 1).right name.toList.length).right 1))
      (')' :: rest) rfl
    have htext : (Statement.text valueText (.define name value)).toList
        = '(' :: ("define".toList ++ ' ' :: (name.toList
          ++ ' ' :: ((value.text valueText).toList ++ [')']))) := by
      simp [Statement.text]
    rw [htext]
    refine ⟨_, _, _, (((hspans.append (spans_nil (q.right 1) rest).rightParen).name hname).name
      (by decide)).leftParen, .define rfl rfl (by decide) hkind hderives rfl, fun same => ?_⟩
    simp [Statement.equal, hequal]
  | print e =>
    obtain ⟨ts, q, e', hspans, hderives, hequal, -⟩ := denotes_text valueText h
      ((((p.right 1).right "print".toList.length).right 1)) (')' :: rest) rfl
    have htext : (Statement.text valueText (.print e)).toList
        = '(' :: ("print".toList ++ ' ' :: ((e.text valueText).toList ++ [')'])) := by
      simp [Statement.text]
    rw [htext]
    refine ⟨_, _, _, ((hspans.append (spans_nil (q.right 1) rest).rightParen).name
      (by decide)).leftParen, .print rfl rfl (by decide) hderives rfl, fun same => ?_⟩
    simp [Statement.equal, hequal]

/-- The texts of printable statements, one a line, are read as statements that equal them. -/
theorem spans_program (valueText : Value → String) {ss : List Statement}
    (h : ∀ s ∈ ss, s.isPrintable = true) (p : Position) :
    ∃ ts q ss', Spans p ("\n".intercalate (ss.map (·.text valueText))).toList [] ts q
      ∧ DerivesProgram ts ss' ∧ ∀ same, ss'.isEqv ss (Statement.equal same) = true := by
  induction ss generalizing p with
  | nil => exact ⟨[], p, [], spans_nil p [], .nil, fun same => rfl⟩
  | cons s ss ih =>
    -- The last statement is followed by nothing, any other one by a line end.
    cases ss with
    | nil =>
      obtain ⟨ts, q, s', hspans, hderives, hequal⟩ :=
        spans_statement valueText (h s List.mem_cons_self) p []
      refine ⟨ts ++ [], q, [s'], ?_, .cons hderives .nil, fun same => ?_⟩
      · rw [List.map_singleton, String.intercalate_singleton, List.append_nil]
        exact hspans
      · simp [List.isEqv, hequal]
    | cons s₂ ss =>
      obtain ⟨ts, q, s', hspans, hderives, hequal⟩ := spans_statement valueText
        (h s List.mem_cons_self) p
        ('\n' :: ("\n".intercalate ((s₂ :: ss).map (·.text valueText))).toList ++ [])
      obtain ⟨ts', q', ss', hspans', hderives', hequal'⟩ :=
        ih (fun r hr => h r (List.mem_cons_of_mem _ hr)) (q.after '\n')
      have htext : ("\n".intercalate ((s :: s₂ :: ss).map (·.text valueText))).toList
          = (s.text valueText).toList
            ++ '\n' :: ("\n".intercalate ((s₂ :: ss).map (·.text valueText))).toList := by
        simp [String.intercalate_cons_cons]
      rw [htext]
      refine ⟨_, q', _, hspans.append ((spans_whitespace (by decide) q _).append hspans'),
        .cons hderives hderives', fun same => ?_⟩
      simp [List.isEqv, hequal, hequal']

/-- The texts of printable statements, one a line, are the text of one program. -/
theorem readProgram_text (valueText : Value → String) {p : Program}
    (h : ∀ s ∈ p.statements, s.isPrintable = true) :
    ∃ p', readProgram ("\n".intercalate (p.statements.map (·.text valueText))) = .ok p'
      ∧ ∀ same, p'.equal same p = true := by
  obtain ⟨ts, q, ss, hspans, hderives, hequal⟩ := spans_program valueText h .start
  refine ⟨⟨ss⟩, ?_, hequal⟩
  have htokens := hspans [⟨.endOfInput, "", q⟩] (by rw [tokensFrom])
  rw [List.append_nil] at htokens
  show (tokenize _ >>= programOfTokens) = _
  rw [tokenize, htokens]
  show (statements _).1.map Program.mk = _
  rw [hderives.statements_eq rfl]
  rfl

/-! ## The round trip -/

/-- What is written is read back: the text of a printable expression gives an expression that equals
it, and the texts of printable statements, one a line, give a program that equals theirs. -/
theorem read_text (valueText : Value → String) :
    (∀ e : Expr, e.isPrintable = true →
      ∃ e', readExpression (e.text valueText) = .ok e' ∧ ∀ same, e'.equal same e = true)
    ∧ ∀ p : Program, (∀ s ∈ p.statements, s.isPrintable = true) →
      ∃ p', readProgram ("\n".intercalate (p.statements.map (·.text valueText))) = .ok p'
        ∧ ∀ same, p'.equal same p = true :=
  ⟨fun _ h => readExpression_text valueText h, fun _ h => readProgram_text valueText h⟩

/-- The call of a lambda with `-0` as an argument, a number just above exponent notation and a
keyword that is a reserved word in its body, as an expression and in a program. -/
theorem read_text_call :
    let e : Expr := .application
      (.lambda ["x", "-"] (.conditional (.var "zero?") (.keyword "true")
        (.number (Float.ofBits 0x3EB0C6F7A0B5ED8D))))
      [.number (Float.ofBits 0x8000000000000000), .null]
    let p : Program := ⟨[.define "druck" e, .print (.var "druck")]⟩
    (e.isPrintable = true ∧ ∀ s ∈ p.statements, s.isPrintable = true)
      ∧ (∃ e', readExpression (e.text fun _ => "") = .ok e' ∧ ∀ same, e'.equal same e = true)
      ∧ ∃ p', readProgram ("\n".intercalate (p.statements.map (·.text fun _ => ""))) = .ok p'
        ∧ ∀ same, p'.equal same p = true := by
  intro e p
  have he : e.isPrintable = true := by decide +kernel
  have hp : ∀ s ∈ p.statements, s.isPrintable = true := by decide +kernel
  exact ⟨⟨he, hp⟩, (read_text fun _ => "").1 e he, (read_text fun _ => "").2 p hp⟩

end ObjectLisp
