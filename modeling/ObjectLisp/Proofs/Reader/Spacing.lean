import ObjectLisp.Proofs.Reader.Position

/-!
# Reading does not depend on spacing

Two token lists have the `SameSpelling` if their tokens have the same kinds and texts, and the same
of them stand directly after a colon. Reading finds the same in both: the same expression or
program, or the same fault, at tokens of the same index (`SameOutcome`).

The argument follows the reader. One token changes the states of two readings alike, since a place
that a state holds is that of a colon, and is compared with the place of the next token only
(`stepsAlike_step`). So two readings go on alike (`readsAlike_resume`), and leave the same number of
tokens.
-/

namespace ObjectLisp.Reader

open Lexer

/-! ## Token lists with the same spelling -/

/-- Two token lists agree in all but the places, and after each colon the next tokens touch it in
both lists or in neither. -/
structure SameSpelling (ts us : List Token) : Prop where
  content : ts.map tokenContent = us.map tokenContent
  adjacent : ∀ (i : Nat) (c d t u : Token), ts[i]? = some c → us[i]? = some d → c.kind = .colon →
    ts[i + 1]? = some t → us[i + 1]? = some u → touches c.position t = touches d.position u

/-- The first tokens, if there are any, touch two colons or do not touch them alike. -/
def TouchAlike (p q : Position) (ts us : List Token) : Prop :=
  ∀ t u, ts.head? = some t → us.head? = some u → touches p t = touches q u

variable {α β γ : Type} {ts us : List Token} {t u : Token}

/-- Two empty lists are spelled the same. -/
theorem sameSpelling_nil : SameSpelling [] [] where
  content := rfl
  adjacent _ _ _ _ _ h := nomatch h

/-- What the same spelling says of the first tokens and of the others. -/
theorem sameSpelling_cons_iff : SameSpelling (t :: ts) (u :: us)
    ↔ tokenContent t = tokenContent u
      ∧ (t.kind = .colon → TouchAlike t.position u.position ts us) ∧ SameSpelling ts us := by
  constructor
  · rintro ⟨hcontent, hadjacent⟩
    obtain ⟨hhead, htail⟩ := List.cons.inj hcontent
    -- The adjacency of the heads is that at index 0, and that of the tails is one index further on.
    refine ⟨hhead, fun hkind t' u' ht' hu' => ?_, htail, fun i => hadjacent (i + 1)⟩
    rw [List.head?_eq_getElem?] at ht' hu'
    exact hadjacent 0 t u t' u' rfl rfl hkind ht' hu'
  · rintro ⟨hhead, htouch, htail⟩
    refine ⟨congrArg₂ List.cons hhead htail.content, fun i c d t' u' hc hd hkind ht' hu' => ?_⟩
    -- Index 0 is the new pair, any other one an index of the tails.
    cases i with
    | zero =>
      cases hc
      cases hd
      rw [List.getElem?_cons_succ, ← List.head?_eq_getElem?] at ht' hu'
      exact htouch hkind t' u' ht' hu'
    | succ i => exact htail.adjacent i c d t' u' hc hd hkind ht' hu'

/-- Two lists with the same spelling are empty, or their first tokens differ in the place only. -/
theorem SameSpelling.cases (h : SameSpelling ts us) :
    ts = [] ∧ us = [] ∨ ∃ kind lexeme p q ts' us', ts = ⟨kind, lexeme, p⟩ :: ts'
      ∧ us = ⟨kind, lexeme, q⟩ :: us' ∧ (kind = .colon → TouchAlike p q ts' us')
      ∧ SameSpelling ts' us' := by
  cases ts with
  | nil => exact .inl ⟨rfl, List.map_eq_nil_iff.1 h.content.symm⟩
  | cons t ts =>
    cases us with
    | nil => nomatch h.content
    | cons u us =>
      obtain ⟨hhead, htouch, htail⟩ := sameSpelling_cons_iff.1 h
      obtain ⟨kind, lexeme, p⟩ := t
      obtain ⟨kind', lexeme', q⟩ := u
      cases hhead
      exact .inr ⟨kind, lexeme, p, q, ts, us, rfl, rfl, htouch, htail⟩

/-- What is left of two lists after as many tokens is spelled the same. -/
theorem SameSpelling.drop (h : SameSpelling ts us) (n : Nat) :
    SameSpelling (ts.drop n) (us.drop n) where
  content := by rw [List.map_drop, List.map_drop, h.content]
  adjacent i c d t u hc hd hkind ht hu := by
    rw [List.getElem?_drop] at hc hd ht hu
    exact h.adjacent (n + i) c d t u hc hd hkind ht hu

/-! ## Outcomes -/

/-- Two results of reading are the same, or the same fault at tokens of the same index. -/
inductive SameOutcome (ts us : List Token) : Except ReadError α → Except ReadError α → Prop
  | value (a : α) : SameOutcome ts us (.ok a) (.ok a)
  | fault {i : Nat} {t u : Token} (ht : ts[i]? = some t) (hu : us[i]? = some u) (f : Fault) :
      SameOutcome ts us (.error (.fault t.position f)) (.error (.fault u.position f))
  | unexpectedEnd : SameOutcome ts us (.error .unexpectedEnd) (.error .unexpectedEnd)
  | notAStatement (form : String) :
      SameOutcome ts us (.error (.notAStatement form)) (.error (.notAStatement form))

/-- The same outcome goes through any function of the value. -/
theorem SameOutcome.map {x y : Except ReadError α} (h : SameOutcome ts us x y) (f : α → β) :
    SameOutcome ts us (x.map f) (y.map f) := by
  cases h with
  | value a => exact .value (f a)
  | fault ht hu fault => exact .fault ht hu fault
  | unexpectedEnd => exact .unexpectedEnd
  | notAStatement form => exact .notAStatement form

/-- The result of one reading is a value exactly if that of the other is. -/
theorem SameOutcome.eq_ok_iff {x y : Except ReadError α} (h : SameOutcome ts us x y) (a : α) :
    x = .ok a ↔ y = .ok a := by
  cases h with
  | value b => rfl
  | fault => exact ⟨nofun, nofun⟩
  | unexpectedEnd => exact ⟨nofun, nofun⟩
  | notAStatement => exact ⟨nofun, nofun⟩

/-- Two readings have the same outcome and use the same number of tokens. -/
def ReadsAlike (ts us : List Token) (r s : Reading α) : Prop :=
  ∃ n, r.2 = ts.drop n ∧ s.2 = us.drop n ∧ SameOutcome ts us r.1 s.1

/-- What holds of the outcomes after some tokens holds of them as a whole. -/
theorem SameOutcome.of_drop {x y : Except ReadError α} {n : Nat}
    (h : SameOutcome (ts.drop n) (us.drop n) x y) : SameOutcome ts us x y := by
  cases h with
  | value a => exact .value a
  | fault ht hu f =>
    rw [List.getElem?_drop] at ht hu
    exact .fault ht hu f
  | unexpectedEnd => exact .unexpectedEnd
  | notAStatement form => exact .notAStatement form

/-- Readings after some tokens that were read alike. -/
theorem ReadsAlike.of_drop {r s : Reading α} {n : Nat}
    (h : ReadsAlike (ts.drop n) (us.drop n) r s) : ReadsAlike ts us r s := by
  obtain ⟨m, hr, hs, houtcome⟩ := h
  rw [List.drop_drop] at hr hs
  exact ⟨n + m, hr, hs, houtcome.of_drop⟩

/-- Two readings stay alike with one token more before each list. -/
theorem ReadsAlike.cons {r s : Reading α} (h : ReadsAlike ts us r s) :
    ReadsAlike (t :: ts) (u :: us) r s :=
  h.of_drop (n := 1)

/-! ## One token -/

/-- Two modes are the same, but for the place of a colon. -/
inductive ModesAlike (ts us : List Token) : Mode → Mode → Prop
  | expression : ModesAlike ts us .expression .expression
  | parameterList : ModesAlike ts us .parameterList .parameterList
  | parameters (names : List String) : ModesAlike ts us (.parameters names) (.parameters names)
  | closing (e : Expr) : ModesAlike ts us (.closing e) (.closing e)
  | keyword {p q : Position} (h : TouchAlike p q ts us) :
      ModesAlike ts us (.keyword p) (.keyword q)

/-- Two readings go on alike after the tokens `t` and `u`, or end there alike. -/
inductive StepsAlike (t u : Token) (ts us : List Token) :
    Except ReadError Progress → Except ReadError Progress → Prop
  | done (e : Expr) : StepsAlike t u ts us (.ok (.done e)) (.ok (.done e))
  | more {m m' : Mode} (h : ModesAlike ts us m m') (stack : List Slot) :
      StepsAlike t u ts us (.ok (.more ⟨m, stack⟩)) (.ok (.more ⟨m', stack⟩))
  | fault (f : Fault) :
      StepsAlike t u ts us (.error (.fault t.position f)) (.error (.fault u.position f))
  | unexpectedEnd : StepsAlike t u ts us (.error .unexpectedEnd) (.error .unexpectedEnd)

/-- A finished expression goes to the same slot on both sides. -/
theorem stepsAlike_deliver (e : Expr) (stack : List Slot) :
    StepsAlike t u ts us (.ok (deliver e stack)) (.ok (deliver e stack)) := by
  cases stack with
  | nil => exact .done e
  | cons slot stack =>
    cases slot with
    | body params => exact .more (.closing _) stack
    | alternative guard consequent => exact .more (.closing _) stack
    | _ => exact .more .expression _

/-- The name at the head of a form decides the same on both sides, and is a fault at the token
itself. -/
theorem stepsAlike_headName (name : String) (stack : List Slot) :
    StepsAlike t u ts us (headName name t stack) (headName name u stack) := by
  unfold headName
  split
  · exact .more .parameterList stack
  · split
    · exact .more .expression _
    · split
      · exact .fault _
      · exact stepsAlike_deliver _ _

variable {kind : TokenKind} {lexeme : String} {p q : Position}

/-- A closing parenthesis closes the same form on both sides. -/
theorem stepsAlike_closeForm (stack : List Slot) :
    StepsAlike ⟨kind, lexeme, p⟩ ⟨kind, lexeme, q⟩ ts us
      (closeForm ⟨kind, lexeme, p⟩ stack) (closeForm ⟨kind, lexeme, q⟩ stack) := by
  unfold closeForm
  split
  · exact .fault _
  · exact stepsAlike_deliver _ _
  · exact .fault _
  · exact .fault _

/-- A colon is where a place comes into the state. -/
theorem stepsAlike_expressionToken (h : kind = .colon → TouchAlike p q ts us) (stack : List Slot) :
    StepsAlike ⟨kind, lexeme, p⟩ ⟨kind, lexeme, q⟩ ts us
      (expressionToken ⟨kind, lexeme, p⟩ stack) (expressionToken ⟨kind, lexeme, q⟩ stack) := by
  cases kind with
  | leftParen => exact .more .expression _
  | rightParen => exact stepsAlike_closeForm stack
  | colon => exact .more (.keyword (h rfl)) stack
  | number x => exact stepsAlike_deliver _ stack
  | bool b => exact stepsAlike_deliver _ stack
  | null => exact stepsAlike_deliver _ stack
  | identifier name =>
    simp only [expressionToken]
    split
    · exact stepsAlike_headName name _
    · exact stepsAlike_deliver _ _
  | endOfInput => exact .unexpectedEnd

/-- After a colon the state's place is compared with that of the token, and not used again. -/
theorem stepsAlike_keywordToken {c d : Position}
    (h : touches c ⟨kind, lexeme, p⟩ = touches d ⟨kind, lexeme, q⟩) (stack : List Slot) :
    StepsAlike ⟨kind, lexeme, p⟩ ⟨kind, lexeme, q⟩ ts us
      (keywordToken c ⟨kind, lexeme, p⟩ stack) (keywordToken d ⟨kind, lexeme, q⟩ stack) := by
  have hname : StepsAlike ⟨kind, lexeme, p⟩ ⟨kind, lexeme, q⟩ ts us
      (if touches c ⟨kind, lexeme, p⟩ = true then .ok (deliver (.keyword lexeme) stack)
        else .error (.fault p .detachedKeyword))
      (if touches d ⟨kind, lexeme, q⟩ = true then .ok (deliver (.keyword lexeme) stack)
        else .error (.fault q .detachedKeyword)) := by
    rw [h]
    split
    · exact stepsAlike_deliver _ stack
    · exact .fault _
  -- The three kinds whose text can name a keyword look at the place; all others are refused for
  -- their kind.
  cases kind with
  | identifier name => exact hname
  | bool b => exact hname
  | null => exact hname
  | endOfInput => exact .unexpectedEnd
  | leftParen => exact .fault _
  | rightParen => exact .fault _
  | colon => exact .fault _
  | number x => exact .fault _

/-- Tokens that differ in the place only are read alike. -/
theorem stepsAlike_step {m m' : Mode}
    (hmode : ModesAlike (⟨kind, lexeme, p⟩ :: ts) (⟨kind, lexeme, q⟩ :: us) m m')
    (htouch : kind = .colon → TouchAlike p q ts us) (stack : List Slot) :
    StepsAlike ⟨kind, lexeme, p⟩ ⟨kind, lexeme, q⟩ ts us
      (step ⟨m, stack⟩ ⟨kind, lexeme, p⟩) (step ⟨m', stack⟩ ⟨kind, lexeme, q⟩) := by
  -- Only the mode after a colon, the last one, carries a place that can differ on the two sides.
  cases hmode with
  | expression => exact stepsAlike_expressionToken htouch stack
  | parameterList =>
    cases kind with
    | leftParen => exact .more (.parameters []) stack
    | endOfInput => exact .unexpectedEnd
    | _ => exact .fault _
  | parameters names =>
    cases kind with
    | identifier name => exact .more (.parameters _) stack
    | rightParen => exact .more .expression _
    | endOfInput => exact .unexpectedEnd
    | _ => exact .fault _
  | closing e =>
    cases kind with
    | rightParen => exact stepsAlike_deliver e stack
    | endOfInput => exact .unexpectedEnd
    | _ => exact .fault _
  | keyword h => exact stepsAlike_keywordToken (h _ _ rfl rfl) stack

/-! ## Expressions -/

/-- States that are alike go on alike. -/
theorem readsAlike_resume {m m' : Mode} (h : SameSpelling ts us) (hmode : ModesAlike ts us m m')
    (stack : List Slot) : ReadsAlike ts us (resume ⟨m, stack⟩ ts) (resume ⟨m', stack⟩ us) := by
  induction ts generalizing us m m' stack with
  | nil =>
    obtain rfl : us = [] := List.map_eq_nil_iff.1 h.content.symm
    exact ⟨0, rfl, rfl, .unexpectedEnd⟩
  | cons t ts ih =>
    -- One token on each side: it has the same kind and text, so the steps are alike.
    rcases h.cases with ⟨hnil, -⟩ | ⟨kind, lexeme, p, q, ts', us, hts, rfl, htouch, htail⟩
    · nomatch hnil
    obtain ⟨rfl, rfl⟩ := List.cons.inj hts
    have hstep := stepsAlike_step hmode htouch stack
    rw [resume, resume]
    generalize step ⟨m, stack⟩ ⟨kind, lexeme, p⟩ = x at hstep ⊢
    generalize step ⟨m', stack⟩ ⟨kind, lexeme, q⟩ = y at hstep ⊢
    cases hstep with
    | done e => exact ⟨1, rfl, rfl, .value e⟩
    -- Both sides want more: the induction hypothesis serves any pair of modes that are alike.
    | more hmode stack => exact (ih htail hmode stack).cons
    | fault f => exact ⟨0, rfl, rfl, .fault (i := 0) rfl rfl f⟩
    | unexpectedEnd => exact ⟨0, rfl, rfl, .unexpectedEnd⟩

/-- Expressions are read alike. -/
theorem readsAlike_expression (h : SameSpelling ts us) :
    ReadsAlike ts us (expression ts) (expression us) :=
  readsAlike_resume h .expression []

/-- Go on after a value, with the tokens that its reading left. -/
def andThen (r : Reading α) (next : α → List Token → Reading β) : Reading β :=
  match r with
  | (.ok a, rest) => next a rest
  | (.error e, rest) => (.error e, rest)

/-- Three readings in a row may be grouped either way. -/
theorem andThen_assoc (r : Reading α) (f : α → List Token → Reading β)
    (g : β → List Token → Reading γ) :
    andThen (andThen r f) g = andThen r fun a rest => andThen (f a rest) g := by
  rcases r with ⟨_ | _, _⟩ <;> rfl

/-- A reading of two parts succeeds when the first part does and the second one does on what it
leaves. -/
theorem andThen_eq_ok_iff {r : Reading α} {next : α → List Token → Reading β} {b : β}
    {rest : List Token} : andThen r next = (.ok b, rest)
      ↔ ∃ a mid, r = (.ok a, mid) ∧ next a mid = (.ok b, rest) := by
  rcases r with ⟨_ | a, mid⟩
  · simp [andThen]
  · simp [andThen]

/-- Readings that are alike go on alike. -/
theorem ReadsAlike.andThen {r s : Reading α} (h : ReadsAlike ts us r s)
    {next : α → List Token → Reading β} (hnext : ∀ a n, r = (.ok a, ts.drop n) →
      ReadsAlike (ts.drop n) (us.drop n) (next a (ts.drop n)) (next a (us.drop n))) :
    ReadsAlike ts us (andThen r next) (andThen s next) := by
  obtain ⟨x, rest⟩ := r
  obtain ⟨y, rest'⟩ := s
  obtain ⟨n, rfl, rfl, houtcome⟩ := h
  cases houtcome with
  | value a => exact (hnext a n rfl).of_drop
  | fault ht hu f => exact ⟨n, rfl, rfl, .fault ht hu f⟩
  | unexpectedEnd => exact ⟨n, rfl, rfl, .unexpectedEnd⟩
  | notAStatement form => exact ⟨n, rfl, rfl, .notAStatement form⟩

/-- The end is missed at tokens of the same index. -/
theorem readsAlike_requireEnd (e : Expr) (h : SameSpelling ts us) :
    ReadsAlike ts us (requireEnd e ts) (requireEnd e us) := by
  rcases h.cases with ⟨rfl, rfl⟩ | ⟨kind, lexeme, p, q, ts, us, rfl, rfl, -⟩
  · exact ⟨0, rfl, rfl, .value e⟩
  · simp only [requireEnd]
    split
    · exact ⟨0, rfl, rfl, .value e⟩
    · exact ⟨0, rfl, rfl, .fault (i := 0) rfl rfl _⟩

/-- A single expression is an expression and then the end. -/
theorem singleExpression_eq_andThen (ts : List Token) :
    singleExpression ts = andThen (expression ts) requireEnd := by
  rw [singleExpression]
  rcases expression ts with ⟨_ | _, _⟩ <;> rfl

/-- Single expressions are read alike. -/
theorem readsAlike_singleExpression (h : SameSpelling ts us) :
    ReadsAlike ts us (singleExpression ts) (singleExpression us) := by
  rw [singleExpression_eq_andThen, singleExpression_eq_andThen]
  exact (readsAlike_expression h).andThen fun e n _ => readsAlike_requireEnd e (h.drop n)

/-! ## Statements -/

/-- The parenthesis that closes a statement is found or missed alike. -/
theorem readsAlike_closeStatement (s : Statement) (h : SameSpelling ts us) :
    ReadsAlike ts us (closeStatement s ts) (closeStatement s us) := by
  rcases h.cases with ⟨rfl, rfl⟩ | ⟨kind, lexeme, p, q, ts, us, rfl, rfl, -⟩
  · exact ⟨0, rfl, rfl, .unexpectedEnd⟩
  · cases kind with
    | rightParen => exact ⟨1, rfl, rfl, .value s⟩
    | endOfInput => exact ⟨0, rfl, rfl, .unexpectedEnd⟩
    | _ => exact ⟨0, rfl, rfl, .fault (i := 0) rfl rfl _⟩

/-- The rest of a statement with one expression is that expression and then the parenthesis. -/
theorem closedBy_eq_andThen (make : Expr → Statement) (ts : List Token) :
    closedBy make ts = andThen (expression ts) fun e => closeStatement (make e) := by
  rw [closedBy]
  rcases expression ts with ⟨_ | _, _⟩ <;> rfl

/-- So is the rest of a statement with one expression. -/
theorem readsAlike_closedBy (make : Expr → Statement) (h : SameSpelling ts us) :
    ReadsAlike ts us (closedBy make ts) (closedBy make us) := by
  rw [closedBy_eq_andThen, closedBy_eq_andThen]
  exact (readsAlike_expression h).andThen fun e n _ => readsAlike_closeStatement _ (h.drop n)

/-- So is the rest of a definition. -/
theorem readsAlike_definition (h : SameSpelling ts us) :
    ReadsAlike ts us (definition ts) (definition us) := by
  rcases h.cases with ⟨rfl, rfl⟩ | ⟨kind, lexeme, p, q, ts, us, rfl, rfl, -, htail⟩
  · exact ⟨0, rfl, rfl, .unexpectedEnd⟩
  · cases kind with
    | identifier name => exact (readsAlike_closedBy _ htail).cons
    | endOfInput => exact ⟨0, rfl, rfl, .unexpectedEnd⟩
    | _ => exact ⟨0, rfl, rfl, .fault (i := 0) rfl rfl _⟩

/-- An expression in the place of a statement is read to its end and then refused. -/
theorem bareExpression_eq_andThen (ts : List Token) : bareExpression ts
    = andThen (expression ts) fun e rest => (.error (.notAStatement e.sourceText), rest) := by
  rw [bareExpression]
  rcases expression ts with ⟨_ | _, _⟩ <;> rfl

/-- It is refused alike on both sides, with the same text. -/
theorem readsAlike_bareExpression (h : SameSpelling ts us) :
    ReadsAlike ts us (bareExpression ts) (bareExpression us) := by
  rw [bareExpression_eq_andThen, bareExpression_eq_andThen]
  exact (readsAlike_expression h).andThen fun e n _ => ⟨0, rfl, rfl, .notAStatement _⟩

/-- The first two tokens decide what a statement is. -/
theorem readsAlike_statement (h : SameSpelling ts us) :
    ReadsAlike ts us (statement ts) (statement us) := by
  have hbare := readsAlike_bareExpression h
  -- A statement is known by its first two tokens, so both lists are opened twice.
  rcases h.cases with ⟨rfl, rfl⟩ | ⟨kind, lexeme, p, q, ts, us, rfl, rfl, -, htail⟩
  · exact hbare
  cases kind with
  | leftParen =>
    rcases htail.cases with ⟨rfl, rfl⟩ | ⟨kind, lexeme', p', q', ts, us, rfl, rfl, -, hrest⟩
    · exact hbare
    · cases kind with
      | identifier name =>
        simp only [statement]
        split
        · -- Both tokens are used up by then, and an index counts from after them.
          exact (readsAlike_definition hrest).of_drop (n := 2)
        · split
          · exact (readsAlike_closedBy _ hrest).of_drop (n := 2)
          · exact hbare
      | _ => exact hbare
  | _ => exact hbare

/-- Two lists that are spelled the same are at their end together. -/
theorem SameSpelling.atEnd_eq (h : SameSpelling ts us) : atEnd ts = atEnd us := by
  rcases h.cases with ⟨rfl, rfl⟩ | ⟨kind, lexeme, p, q, ts, us, rfl, rfl, -⟩ <;> rfl

/-- A program is a statement and the program after it, or nothing at the end of the input. -/
theorem statements_eq_andThen (ts : List Token) : statements ts
    = if atEnd ts then (.ok [], ts)
      else andThen (statement ts) fun s rest =>
        andThen (statements rest) fun ss rest' => (.ok (s :: ss), rest') := by
  rw [statements]
  split
  · rfl
  · split
    · next hs => simp only [hs, andThen]
    · next s rest hs =>
      simp only [hs, andThen]
      rcases statements rest with ⟨_ | _, _⟩ <;> rfl

/-- Statements are read alike, one after another. -/
theorem readsAlike_statements (h : SameSpelling ts us) :
    ReadsAlike ts us (statements ts) (statements us) := by
  induction hn : ts.length using Nat.strongRecOn generalizing ts us with
  | ind k ih =>
    rw [statements_eq_andThen ts, statements_eq_andThen us, h.atEnd_eq]
    split
    · exact ⟨0, rfl, rfl, .value []⟩
    · refine (readsAlike_statement h).andThen fun s n hs => ?_
      have hlt := statement_length_lt hs
      refine (ih _ (hn ▸ hlt) (h.drop n) rfl).andThen fun ss m _ => ?_
      exact ⟨0, rfl, rfl, .value (s :: ss)⟩

/-- Programs come out the same. -/
theorem sameOutcome_programOfTokens (h : SameSpelling ts us) :
    SameOutcome ts us (programOfTokens ts) (programOfTokens us) := by
  obtain ⟨_, -, -, houtcome⟩ := readsAlike_statements h
  exact houtcome.map Program.mk

/-- Expressions come out the same. -/
theorem sameOutcome_expressionOfTokens (h : SameSpelling ts us) :
    SameOutcome ts us (expressionOfTokens ts) (expressionOfTokens us) := by
  obtain ⟨_, -, -, houtcome⟩ := readsAlike_singleExpression h
  exact houtcome

/-! ## Expressions one after another -/

/-- The tokens that are left after reading `n` expressions, whether they could be read or not. -/
def afterExpressions : Nat → List Token → List Token
  | 0, ts => ts
  | n + 1, ts => afterExpressions n (expression ts).2

/-- The next expression is read alike, however many have been read before. -/
theorem sameOutcome_expression_after (n : Nat) (h : SameSpelling ts us) : SameOutcome ts us
    (expression (afterExpressions n ts)).1 (expression (afterExpressions n us)).1 := by
  induction n generalizing ts us with
  | zero =>
    obtain ⟨_, -, -, houtcome⟩ := readsAlike_expression h
    exact houtcome
  | succ n ih =>
    obtain ⟨m, hts, hus, -⟩ := readsAlike_expression h
    rw [afterExpressions, afterExpressions, hts, hus]
    exact (ih (h.drop m)).of_drop

/-! ## Sources -/

/-- Two pieces are the same token. If it is a colon, a gap is after both or after neither. -/
structure SamePiece (p q : Piece) : Prop where
  content : p.content = q.content
  gap : p.kind = .colon → (p.gap = [] ↔ q.gap = [])

/-- The tokens of pieces that begin at `p`, and the end of the input. -/
def tokensToEnd (p : Position) (ps : List Piece) : List Token :=
  piecesTokens p ps ++ [⟨.endOfInput, "", p.afterAll (piecesText ps)⟩]

/-- The tokens of some pieces are that of the first and those of the others, from the place where
the first one ends. -/
theorem tokensToEnd_cons (p : Position) (a : Piece) (ps : List Piece) : tokensToEnd p (a :: ps)
    = ⟨a.kind, String.ofList a.lexeme, p⟩ :: tokensToEnd (p.afterAll (a.lexeme ++ a.gap)) ps := by
  rw [tokensToEnd, tokensToEnd, ← Position.afterAll_append, List.append_assoc, piecesText]
  rfl

/-- The first token stands where the pieces begin. -/
theorem position_of_head?_tokensToEnd {p : Position} {ps : List Piece} {t : Token}
    (h : (tokensToEnd p ps).head? = some t) : t.position = p := by
  cases ps <;> cases h <;> rfl

/-- Pieces that are the same but for their gaps have the same spelling. -/
theorem sameSpelling_tokensToEnd {ps qs : List Piece} (h : List.Forall₂ SamePiece ps qs)
    (hps : ArePieces ps) (hqs : ArePieces qs) (p q : Position) :
    SameSpelling (tokensToEnd p ps) (tokensToEnd q qs) := by
  induction h generalizing p q with
  | nil => exact sameSpelling_cons_iff.2 ⟨rfl, nofun, sameSpelling_nil⟩
  | @cons a b ps qs hab _ ih =>
    rw [tokensToEnd_cons, tokensToEnd_cons]
    refine sameSpelling_cons_iff.2 ⟨hab.content, fun hkind t u ht hu => ?_,
      ih hps.tail.2 hqs.tail.2 _ _⟩
    -- The tokens after two colons stand where the gaps of the colons end.
    have hkind' : b.kind = .colon := (congrArg Prod.fst hab.content).symm.trans hkind
    have ha : a.lexeme = [':'] :=
      eq_colon (hkind ▸ hps.isMark_or_isWordOf a List.mem_cons_self)
    have hb : b.lexeme = [':'] :=
      eq_colon (hkind' ▸ hqs.isMark_or_isWordOf b List.mem_cons_self)
    rw [ha] at ht
    rw [hb] at hu
    have htouch : touches p t = true ↔ a.gap = [] := touches_iff (position_of_head?_tokensToEnd ht)
    have htouch' : touches q u = true ↔ b.gap = [] := touches_iff (position_of_head?_tokensToEnd hu)
    exact Bool.eq_iff_iff.2 (htouch.trans ((hab.gap hkind).trans htouch'.symm))

/-- The tokens of a layout are those of its pieces, from the place after what precedes them. -/
theorem allTokens_eq_tokensToEnd (l : Layout) :
    l.allTokens = tokensToEnd (Position.start.afterAll l.lead) l.pieces := by
  rw [Layout.allTokens, ← Position.afterAll_start, Layout.source, Position.afterAll_append]
  rfl

/-- Token lists with the same spelling are read alike: as programs, as single expressions, and as
expressions one after another, also past those that are refused. The results are the same, or the
same faults at tokens of the same index. So the spaces and comments of a source may change, but for
those directly after a colon, and it is read as the same program or expression. -/
theorem reading_ignores_spacing :
    (∀ ts us, SameSpelling ts us →
      SameOutcome ts us (programOfTokens ts) (programOfTokens us)
      ∧ SameOutcome ts us (expressionOfTokens ts) (expressionOfTokens us)
      ∧ ∀ n, SameOutcome ts us (expression (afterExpressions n ts)).1
        (expression (afterExpressions n us)).1)
    ∧ ∀ (source source' : String) (l l' : Layout), l.IsValid → l'.IsValid →
      l.source = source.toList → l'.source = source'.toList →
      List.Forall₂ SamePiece l.pieces l'.pieces →
      (∀ p, readProgram source = .ok p ↔ readProgram source' = .ok p)
      ∧ ∀ e, readExpression source = .ok e ↔ readExpression source' = .ok e := by
  refine ⟨fun ts us h => ⟨sameOutcome_programOfTokens h, sameOutcome_expressionOfTokens h,
    fun n => sameOutcome_expression_after n h⟩, ?_⟩
  intro source source' l l' hl hl' hsource hsource' hpieces
  -- The second part follows from the first: equal pieces give tokens of the same spelling.
  have hspelling : SameSpelling l.allTokens l'.allTokens := by
    rw [allTokens_eq_tokensToEnd, allTokens_eq_tokensToEnd]
    exact sameSpelling_tokensToEnd hpieces hl.pieces hl'.pieces _ _
  rw [readProgram, readProgram, readExpression, readExpression, hl.tokenize_eq hsource,
    hl'.tokenize_eq hsource']
  exact ⟨(sameOutcome_programOfTokens hspelling).eq_ok_iff,
    (sameOutcome_expressionOfTokens hspelling).eq_ok_iff⟩

/-- A colon at the start, and a name at a place of its own. -/
def colonAndName (p : Position) : List Token :=
  [⟨.colon, ":", .start⟩, ⟨.null, "null", p⟩]

/-- A keyword after a gap, with another gap after it. -/
def keywordBetween (lead gap : List Char) : Layout :=
  ⟨lead, [⟨[':'], .colon, []⟩, ⟨['a'], .identifier "a", gap⟩]⟩

/-- A colon and a name between two gaps are a valid layout. -/
theorem isValid_keywordBetween {lead gap : List Char} (hlead : IsGap (':' :: 'a' :: gap) lead)
    (hgap : IsGap [] gap) (hend : endsToken gap = true) : (keywordBetween lead gap).IsValid where
  lead := by simpa [keywordBetween, piecesText] using hlead
  pieces := by
    have hname : IsWordOf ['a'] (.identifier "a") :=
      .name (isIdentifier_iff.2 (by decide)) (by decide)
    exact .mark .colon .nil (.word hname (by simpa [piecesText] using hend) hgap .nil)

/-- A name on the line after its colon is refused as one that is two columns to the right, each at
its own place. A comment with a colon and a space around a keyword change nothing. -/
theorem reading_ignores_spacing_detached :
    SameOutcome (colonAndName ⟨1, 3⟩) (colonAndName ⟨2, 1⟩)
      (expressionOfTokens (colonAndName ⟨1, 3⟩)) (expressionOfTokens (colonAndName ⟨2, 1⟩))
    ∧ expressionOfTokens (colonAndName ⟨1, 3⟩) = .error (.fault ⟨1, 3⟩ .detachedKeyword)
    ∧ expressionOfTokens (colonAndName ⟨2, 1⟩) = .error (.fault ⟨2, 1⟩ .detachedKeyword)
    ∧ readExpression ";:\n:a " = .ok (.keyword "a") := by
  obtain ⟨htokens, hsources⟩ := reading_ignores_spacing
  have hspelling : SameSpelling (colonAndName ⟨1, 3⟩) (colonAndName ⟨2, 1⟩) := by
    -- On both sides the name stands apart from its colon.
    refine sameSpelling_cons_iff.2 ⟨rfl, ?_, sameSpelling_cons_iff.2 ⟨rfl, nofun, sameSpelling_nil⟩⟩
    rintro - t u ⟨⟩ ⟨⟩
    rfl
  have hcomment : (keywordBetween ";:\n".toList [' ']).IsValid :=
    isValid_keywordBetween (@IsGap.comment _ [':'] ['\n'] (by decide) rfl
      (.whitespace (by decide) .nil)) (.whitespace (by decide) .nil) rfl
  -- The comment in front of the second source has a colon of its own, which is no piece.
  have hpieces : List.Forall₂ SamePiece (keywordBetween [] []).pieces
      (keywordBetween ";:\n".toList [' ']).pieces :=
    .cons ⟨rfl, fun _ => .rfl⟩ (.cons ⟨rfl, nofun⟩ .nil)
  obtain ⟨-, hread⟩ := hsources ":a" ";:\n:a " _ _ (isValid_keywordBetween .nil .nil rfl) hcomment
    (by decide) (by decide) hpieces
  refine ⟨(htokens _ _ hspelling).2.1, rfl, rfl, (hread _).1 ?_⟩
  cbv

end ObjectLisp.Reader
