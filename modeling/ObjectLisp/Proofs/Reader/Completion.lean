import ObjectLisp.Proofs.Reader.Derivation

/-!
# What more tokens can change

After some tokens a reading `Stands` in one of three ways: it is settled, it has been refused at one
of the tokens, or it is unfinished. In the first two cases nothing that follows makes a difference.
An unfinished reading ends with `unexpectedEnd`, and there are tokens that bring it to a good end:
the state of the reader says which ones are missing (`Partial.remainder`).

So `unexpectedEnd` is the one error that asks for more tokens. The only tokens with a place of their
own are names of keywords, which have to touch the colon before them; the places of all others are
free, and `limit` bounds the lines and columns that there are.
-/

namespace ObjectLisp.Reader

variable {α : Type}

/-! ## Missing tokens -/

/-- The tokens of the completions: an opening and a closing parenthesis, and a complete expression
that is the name of a keyword too. -/
def opener : Token := ⟨.leftParen, "(", .start⟩

@[inherit_doc opener]
def closer : Token := ⟨.rightParen, ")", .start⟩

@[inherit_doc opener]
def filler (p : Position) : Token := ⟨.null, "null", p⟩

/-- What a form lacks after the part that is being read. -/
def Slot.remainder : Slot → List Token
  | .form | .application .. | .body _ | .alternative .. => [closer]
  | .guard => [filler .start, filler .start, closer]
  | .consequent _ => [filler .start, closer]

/-- What the innermost part lacks. -/
def Mode.remainder : Mode → List Token
  | .expression => [filler .start]
  | .parameterList => [opener, closer, filler .start, closer]
  | .parameters _ => [closer, filler .start, closer]
  | .closing _ => [closer]
  | .keyword colon => [filler (colon.right 1)]

/-- What an unfinished expression lacks. -/
def Partial.remainder (s : Partial) : List Token :=
  s.mode.remainder ++ s.stack.flatMap Slot.remainder

/-- When the innermost part has been delivered, the open forms can be closed one after another. -/
theorem exists_feed_deliver (e : Expr) (stack : List Slot) :
    ∃ e', feed (deliver e stack) (stack.flatMap Slot.remainder) = (.ok e', []) := by
  induction stack generalizing e with
  | nil => exact ⟨e, rfl⟩
  | cons slot stack ih =>
    rw [List.flatMap_cons]
    generalize stack.flatMap Slot.remainder = rest at ih ⊢
    have hclosing (form : Expr) :
        ∃ e', resume ⟨.closing form, stack⟩ (closer :: rest) = (.ok e', []) := by
      rw [resume_closing rfl]
      exact ih form
    have happlication (head : Expr) (args : List Expr) :
        ∃ e', resume ⟨.expression, .application head args :: stack⟩ (closer :: rest)
          = (.ok e', []) := by
      have hstep : step ⟨.expression, .application head args :: stack⟩ closer
          = .ok (deliver (.application head args.reverse) stack) := rfl
      rw [resume_cons hstep]
      exact ih _
    -- Each open form needs one parenthesis, and a conditional the branches it lacks before it.
    cases slot with
    | form => exact happlication e []
    | application head args => exact happlication head (e :: args)
    | body params => exact hclosing (.lambda params e)
    | guard => exact hclosing (.conditional e .null .null)
    | consequent guard => exact hclosing (.conditional guard e .null)
    | alternative guard consequent => exact hclosing (.conditional guard consequent e)

/-- Every unfinished expression can be completed. -/
theorem exists_resume_remainder (s : Partial) : ∃ e, resume s s.remainder = (.ok e, []) := by
  obtain ⟨mode, stack⟩ := s
  have hdeliver (e : Expr) := exists_feed_deliver e stack
  rw [Partial.remainder]
  generalize stack.flatMap Slot.remainder = rest at hdeliver ⊢
  have hclosing (form : Expr) :
      ∃ e, resume ⟨.closing form, stack⟩ (closer :: rest) = (.ok e, []) := by
    rw [resume_closing rfl]
    exact hdeliver form
  cases mode with
  | expression =>
    have hstep : step ⟨.expression, stack⟩ (filler .start) = .ok (deliver .null stack) := rfl
    rw [Mode.remainder, List.singleton_append, resume_cons hstep]
    exact hdeliver .null
  | parameterList => exact hclosing (.lambda [] .null)
  | parameters names => exact hclosing (.lambda names.reverse .null)
  | closing e => exact hclosing e
  | keyword colon =>
    -- The name has to touch the colon, so it is the one token whose place is prescribed.
    have htouches : touches colon (filler (colon.right 1)) = true := beq_self_eq_true _
    rw [Mode.remainder, List.singleton_append, resume_cons (step_keyword rfl htouches stack)]
    exact hdeliver _

/-! ## Where a reading stands -/

/-- Tokens before the end of the input, with lines and columns up to `limit`. -/
def Admissible (limit : Nat) (ts : List Token) : Prop :=
  ∀ t ∈ ts, t.kind ≠ .endOfInput ∧ t.position.line ≤ limit ∧ t.position.column ≤ limit

/-- How a reading stands after the tokens `ts`, where `good` is a good end. -/
inductive Stands (limit : Nat) (good : Except ReadError α → Prop) (read : List Token → Reading α)
    (ts : List Token) : Prop
  | settled (r : Except ReadError α) (used rest : List Token) (hts : ts = used ++ rest)
      (hr : good r) (hread : ∀ us, read (ts ++ us) = (r, rest ++ us))
  | refused (used : List Token) (t : Token) (rest : List Token) (f : Fault)
      (hts : ts = used ++ t :: rest)
      (hread : ∀ us, read (ts ++ us) = (.error (.fault t.position f), t :: rest ++ us))
  | unfinished (us : List Token) (r : Except ReadError α)
      (hend : read ts = (.error .unexpectedEnd, [])) (hne : us ≠ []) (hus : Admissible limit us)
      (hr : good r) (hread : read (ts ++ us) = (r, []))

/-- The outcome of a token names no place but that of the token, in a fault or as the colon before
the name of a keyword. -/
def PlacedAt (p : Position) : Except ReadError Progress → Prop
  | .error err => ∃ f, err = .fault p f
  | .ok (.done _) => True
  | .ok (.more s) => ∀ colon, s.mode = .keyword colon → colon = p

/-- No form waits for the name of a keyword after one of its parts. -/
theorem placedAt_deliver (p : Position) (e : Expr) (stack : List Slot) :
    PlacedAt p (.ok (deliver e stack)) := by
  cases stack with
  | nil => exact trivial
  | cons slot stack => cases slot <;> exact nofun

/-- A form that cannot be closed is a fault at the parenthesis. -/
theorem placedAt_closeForm (t : Token) (stack : List Slot) :
    PlacedAt t.position (closeForm t stack) := by
  unfold closeForm
  split
  · exact ⟨_, rfl⟩
  · exact placedAt_deliver _ _ _
  · exact ⟨_, rfl⟩
  · exact ⟨_, rfl⟩

/-- A name that cannot stand at the head of a form is a fault at that name. -/
theorem placedAt_headName (name : String) (t : Token) (stack : List Slot) :
    PlacedAt t.position (headName name t stack) := by
  unfold headName
  split
  · exact nofun
  · split
    · exact nofun
    · split
      · exact ⟨_, rfl⟩
      · exact placedAt_deliver _ _ _

/-- What cannot name a keyword is a fault at that token. -/
theorem placedAt_keywordToken (colon : Position) {t : Token} (ht : t.kind ≠ .endOfInput)
    (stack : List Slot) : PlacedAt t.position (keywordToken colon t stack) := by
  have hword : PlacedAt t.position
      (if touches colon t then .ok (deliver (.keyword t.lexeme) stack)
        else .error (.fault t.position .detachedKeyword)) := by
    split
    · exact placedAt_deliver _ _ _
    · exact ⟨_, rfl⟩
  unfold keywordToken
  split
  · exact hword
  · exact hword
  · exact hword
  · contradiction
  · exact ⟨_, rfl⟩

/-- A step at a token before the end of the input names no other place. -/
theorem placedAt_step (s : Partial) {t : Token} (ht : t.kind ≠ .endOfInput) :
    PlacedAt t.position (step s t) := by
  obtain ⟨mode, stack⟩ := s
  -- In every mode, what is refused is refused at the token just read.
  cases mode with
  | expression =>
    simp only [step, expressionToken]
    split
    · exact nofun
    · exact placedAt_closeForm t stack
    · rintro colon ⟨⟩
      rfl
    · exact placedAt_deliver _ _ _
    · exact placedAt_deliver _ _ _
    · exact placedAt_deliver _ _ _
    · split
      · exact placedAt_headName _ t _
      · exact placedAt_deliver _ _ _
    · contradiction
  | parameterList =>
    simp only [step]
    split
    · exact nofun
    · contradiction
    · exact ⟨_, rfl⟩
  | parameters names =>
    simp only [step]
    split
    · exact nofun
    · exact nofun
    · contradiction
    · exact ⟨_, rfl⟩
  | closing e =>
    simp only [step]
    split
    · exact placedAt_deliver _ _ _
    · contradiction
    · exact ⟨_, rfl⟩
  | keyword colon => exact placedAt_keywordToken colon ht stack

/-- After some tokens, the reader has finished an expression, or has refused one of the tokens, or
is in a state that it would be in anyway, whatever follows. A state that waits for the name of a
keyword has the place of the colon. -/
theorem resume_append (s : Partial) {ts : List Token} (h : ∀ t ∈ ts, t.kind ≠ .endOfInput) :
    (∃ e used rest, ts = used ++ rest ∧ ∀ us, resume s (ts ++ us) = (.ok e, rest ++ us))
    ∨ (∃ used t rest f, ts = used ++ t :: rest
      ∧ ∀ us, resume s (ts ++ us) = (.error (.fault t.position f), t :: rest ++ us))
    ∨ ∃ s', (∀ us, resume s (ts ++ us) = resume s' us)
      ∧ ∀ colon, s'.mode = .keyword colon →
        s.mode = .keyword colon ∨ ∃ t ∈ ts, t.position = colon := by
  induction ts generalizing s with
  | nil => exact .inr (.inr ⟨s, fun _ => rfl, fun _ hmode => .inl hmode⟩)
  | cons t ts ih =>
    obtain ⟨ht, hts⟩ := List.forall_mem_cons.1 h
    have hplaced := placedAt_step s ht
    cases hstep : step s t with
    | error err =>
      rw [hstep] at hplaced
      obtain ⟨f, rfl⟩ := hplaced
      refine .inr (.inl ⟨[], t, ts, f, rfl, fun us => ?_⟩)
      rw [List.cons_append, resume, hstep]
    | ok next =>
      have hcons (us : List Token) : resume s (t :: ts ++ us) = feed next (ts ++ us) :=
        resume_cons hstep _
      cases next with
      | done e => exact .inl ⟨e, [t], ts, rfl, hcons⟩
      | more s₁ =>
        -- The rest is read to the end of an expression, is refused, or wants more; one token is put
        -- before each.
        rcases ih s₁ hts with ⟨e, used, rest, rfl, hread⟩ | ⟨used, u, rest, f, rfl, hread⟩
          | ⟨s', hread, hcolon⟩
        · exact .inl ⟨e, t :: used, rest, rfl, fun us => (hcons us).trans (hread us)⟩
        · exact .inr (.inl ⟨t :: used, u, rest, f, rfl, fun us => (hcons us).trans (hread us)⟩)
        · refine .inr (.inr ⟨s', fun us => (hcons us).trans (hread us), fun colon hmode => .inr ?_⟩)
          rcases hcolon colon hmode with hmode | ⟨u, hu, hposition⟩
          · rw [hstep] at hplaced
            exact ⟨t, List.mem_cons_self, (hplaced colon hmode).symm⟩
          · exact ⟨u, List.mem_cons_of_mem t hu, hposition⟩

/-! ## Expressions -/

/-- Tokens before the end of the input, with lines and columns that leave room for one more column
up to `limit`. -/
structure HasRoom (limit : Nat) (ts : List Token) : Prop where
  pos : 0 < limit
  kind : ∀ t ∈ ts, t.kind ≠ .endOfInput
  line : ∀ t ∈ ts, t.position.line ≤ limit
  column : ∀ t ∈ ts, t.position.column < limit

/-- There is room in the rest of a list. -/
theorem HasRoom.tail {limit : Nat} {t : Token} {ts : List Token} (h : HasRoom limit (t :: ts)) :
    HasRoom limit ts where
  pos := h.pos
  kind u hu := h.kind u (List.mem_cons_of_mem t hu)
  line u hu := h.line u (List.mem_cons_of_mem t hu)
  column u hu := h.column u (List.mem_cons_of_mem t hu)

/-- There is room in what is left of a list. -/
theorem HasRoom.of_append {limit : Nat} {ts us : List Token} (h : HasRoom limit (ts ++ us)) :
    HasRoom limit us where
  pos := h.pos
  kind u hu := h.kind u (List.mem_append_right ts hu)
  line u hu := h.line u (List.mem_append_right ts hu)
  column u hu := h.column u (List.mem_append_right ts hu)

/-- There is room enough for every list of tokens. -/
theorem exists_hasRoom {ts : List Token} (h : ∀ t ∈ ts, t.kind ≠ .endOfInput) :
    ∃ limit, HasRoom limit ts := by
  induction ts with
  | nil => exact ⟨1, Nat.one_pos, h, nofun, nofun⟩
  | cons t ts ih =>
    obtain ⟨limit, hroom⟩ := ih fun u hu => h u (List.mem_cons_of_mem t hu)
    refine ⟨limit + t.position.line + t.position.column + 1, by omega, h, fun u hu => ?_,
      fun u hu => ?_⟩
    · rcases List.mem_cons.1 hu with rfl | hu
      · omega
      · have hline := hroom.line u hu
        omega
    · rcases List.mem_cons.1 hu with rfl | hu
      · omega
      · have hcolumn := hroom.column u hu
        omega

section

variable {limit : Nat} {ts us : List Token}

/-- Two lists that can be placed can be placed one after the other. -/
theorem Admissible.append (hts : Admissible limit ts) (hus : Admissible limit us) :
    Admissible limit (ts ++ us) :=
  List.forall_mem_append.2 ⟨hts, hus⟩

/-- Tokens without a place of their own are admissible. -/
theorem admissible_of_start (hlimit : 0 < limit)
    (h : ∀ t ∈ ts, t.kind ≠ .endOfInput ∧ t.position = .start) : Admissible limit ts := by
  intro t ht
  obtain ⟨hkind, hposition⟩ := h t ht
  rw [hposition]
  exact ⟨hkind, hlimit, hlimit⟩

/-- The tokens that an unfinished expression lacks are admissible, if there is room for the name of
a keyword. -/
theorem admissible_remainder (hlimit : 0 < limit) {s : Partial}
    (hcolon : ∀ colon, s.mode = .keyword colon → colon.line ≤ limit ∧ colon.column < limit) :
    Admissible limit s.remainder := by
  obtain ⟨mode, stack⟩ := s
  refine Admissible.append ?_ fun t ht => ?_
  · -- Only the name after a colon has a place of its own; all other tokens may stand at the start.
    cases mode with
    | keyword colon =>
      obtain ⟨hline, hcolumn⟩ := hcolon colon rfl
      intro t ht
      obtain rfl := List.mem_singleton.1 ht
      exact ⟨nofun, hline, hcolumn⟩
    | expression | parameterList | parameters | closing =>
      exact admissible_of_start hlimit (by simp [Mode.remainder, opener, closer, filler])
  · obtain ⟨slot, -, ht⟩ := List.mem_flatMap.1 ht
    have hslot : Admissible limit slot.remainder := by
      refine admissible_of_start hlimit ?_
      cases slot <;> simp [Slot.remainder, closer, filler]
    exact hslot t ht

/-- How the reading of an expression stands. -/
theorem stands_expression (h : HasRoom limit ts) :
    Stands limit (fun r => ∃ e, r = .ok e) expression ts := by
  rcases resume_append .start h.kind with ⟨e, used, rest, hts, hread⟩
    | ⟨used, t, rest, f, hts, hread⟩ | ⟨s, hread, hcolon⟩
  · exact .settled _ used rest hts ⟨e, rfl⟩ hread
  · exact .refused used t rest f hts hread
  · obtain ⟨e, hcomplete⟩ := exists_resume_remainder s
    refine .unfinished s.remainder _ ?_ ?_ (admissible_remainder h.pos fun colon hmode => ?_)
      ⟨e, rfl⟩ ((hread s.remainder).trans hcomplete)
    · have hend := hread []
      rwa [List.append_nil] at hend
    · obtain ⟨mode, stack⟩ := s
      cases mode <;> exact List.cons_ne_nil _ _
    · rcases hcolon colon hmode with hstart | ⟨t, ht, rfl⟩
      · nomatch hstart
      · exact ⟨h.line t ht, h.column t ht⟩

/-! ## Statements -/

/-- The result of a reading that came to the end of a form: a statement, or an expression in the
place of one. -/
def IsConclusive : Except ReadError α → Prop
  | .ok _ => True
  | .error (.notAStatement _) => True
  | .error _ => False

/-- Only a closing parenthesis ends a statement. -/
theorem closeStatement_of_ne {t : Token} (hclose : t.kind ≠ .rightParen)
    (hend : t.kind ≠ .endOfInput) (s : Statement) (rest : List Token) :
    closeStatement s (t :: rest) = (.error (mismatch .rightParen t), t :: rest) := by
  simp only [closeStatement]

/-- How the reading of an expression and the end of a statement stands. -/
theorem stands_closedBy (make : Expr → Statement) (h : HasRoom limit ts) :
    Stands limit IsConclusive (closedBy make) ts := by
  have hcloser : Admissible limit [closer] := admissible_of_start h.pos (by simp [closer])
  -- The expression ends before the last token, at it, or not at all.
  cases stands_expression h with
  | settled r used rest hts hr hread =>
    obtain ⟨e, rfl⟩ := hr
    have hclose (us : List Token) :
        closedBy make (ts ++ us) = closeStatement (make e) (rest ++ us) := by
      simp only [closedBy, hread us]
    cases rest with
    | nil =>
      have hend := hclose []
      rw [List.append_nil] at hend
      exact .unfinished [closer] (.ok (make e)) hend (List.cons_ne_nil _ _) hcloser trivial
        (hclose _)
    | cons t rest =>
      have hkind : t.kind ≠ .endOfInput := h.kind t (by simp [hts])
      by_cases ht : t.kind = .rightParen
      · refine .settled (.ok (make e)) (used ++ [t]) rest (by simp [hts]) trivial fun us => ?_
        rw [hclose us, List.cons_append]
        simp only [closeStatement, ht]
      · refine .refused used t rest (.expected .rightParen t.kind) hts fun us => ?_
        rw [hclose us]
        exact closeStatement_of_ne ht hkind _ _
  | refused used t rest f hts hread =>
    refine .refused used t rest f hts fun us => ?_
    simp only [closedBy, hread us]
  | unfinished us r hend hne hus hr hread =>
    -- Where the expression is not finished, its completion goes first and the parenthesis after it.
    obtain ⟨e, rfl⟩ := hr
    obtain ⟨whole, hwhole, hderives⟩ := expression_eq_ok_iff.1 hread
    rw [List.append_nil] at hwhole
    refine .unfinished (us ++ [closer]) (.ok (make e)) ?_ (by simp) (hus.append hcloser) trivial ?_
    · simp only [closedBy, hend]
    · rw [← List.append_assoc, hwhole]
      exact hderives.closedBy_eq rfl make []

/-- Readings that lead to another one after some tokens stand as that one does. -/
theorem Stands.after {good : Except ReadError α → Prop} {read read' : List Token → Reading α}
    (h : Stands limit good read' ts) (used : List Token)
    (f : Except ReadError α → Except ReadError α) (hgood : ∀ r, good r → good (f r))
    (herror : ∀ err, f (.error err) = .error err)
    (heq : ∀ us, read (used ++ (ts ++ us)) = (f (read' (ts ++ us)).1, (read' (ts ++ us)).2)) :
    Stands limit good read (used ++ ts) := by
  cases h with
  | settled r before rest hts hr hread =>
    refine .settled (f r) (used ++ before) rest (by rw [hts, List.append_assoc]) (hgood r hr) ?_
    intro us
    rw [List.append_assoc, heq, hread]
  | refused before t rest fault hts hread =>
    refine .refused (used ++ before) t rest fault (by rw [hts, List.append_assoc]) fun us => ?_
    rw [List.append_assoc, heq, hread, herror]
  | unfinished us r hend hne hus hr hread =>
    refine .unfinished us (f r) ?_ hne hus (hgood r hr) ?_
    · have hnil := heq []
      rw [List.append_nil] at hnil
      rw [hnil, hend, herror]
    · rw [List.append_assoc, heq, hread]

/-- Readings that agree on all lists that begin with `ts` stand alike. -/
theorem Stands.congr {good : Except ReadError α → Prop} {read read' : List Token → Reading α}
    (h : Stands limit good read' ts) (heq : ∀ us, read (ts ++ us) = read' (ts ++ us)) :
    Stands limit good read ts :=
  h.after [] id (fun _ hr => hr) (fun _ => rfl) heq

/-- A token in front that leads to another reading. -/
theorem Stands.cons {good : Except ReadError α → Prop} {read read' : List Token → Reading α}
    {t : Token} (h : Stands limit good read' ts) (heq : ∀ us, read (t :: us) = read' us) :
    Stands limit good read (t :: ts) :=
  h.after [t] id (fun _ hr => hr) (fun _ => rfl) fun _ => heq _

/-- How the reading of a definition stands after its first name. -/
theorem stands_definition (h : HasRoom limit ts) :
    Stands limit IsConclusive definition ts := by
  cases ts with
  | nil =>
    have hmissing : Admissible limit [⟨.identifier "x", "x", .start⟩, filler .start, closer] :=
      admissible_of_start h.pos (by simp [closer, filler])
    exact .unfinished _ (.ok (.define "x" .null)) rfl (List.cons_ne_nil _ _) hmissing trivial rfl
  | cons t ts =>
    have hkind : t.kind ≠ .endOfInput := h.kind t List.mem_cons_self
    by_cases ht : ∃ name, t.kind = .identifier name
    · obtain ⟨name, ht⟩ := ht
      refine (stands_closedBy (.define name) h.tail).cons fun us => ?_
      simp only [definition, ht]
    · refine .refused [] t ts (.expected .nameToDefine t.kind) rfl fun us => ?_
      simp only [List.cons_append, definition]
      split
      · next name hname => exact absurd ⟨name, hname⟩ ht
      · contradiction
      · rfl

/-- How the reading of an expression in the place of a statement stands. -/
theorem stands_bareExpression (h : HasRoom limit ts) :
    Stands limit IsConclusive bareExpression ts := by
  cases stands_expression h with
  | settled r used rest hts hr hread =>
    obtain ⟨e, rfl⟩ := hr
    refine .settled (.error (.notAStatement e.sourceText)) used rest hts trivial fun us => ?_
    simp only [bareExpression, hread us]
  | refused used t rest f hts hread =>
    refine .refused used t rest f hts fun us => ?_
    simp only [bareExpression, hread us]
  | unfinished us r hend hne hus hr hread =>
    obtain ⟨e, rfl⟩ := hr
    refine .unfinished us (.error (.notAStatement e.sourceText)) ?_ hne hus trivial ?_
    · simp only [bareExpression, hend]
    · simp only [bareExpression, hread]

/-- A token that does not begin a statement begins an expression. -/
theorem statement_eq_bareExpression {t : Token} {us : List Token}
    (h : ∀ name ∈ defineNames ++ printNames, t.kind = .leftParen → ∀ u rest, us = u :: rest →
      u.kind ≠ .identifier name) : statement (t :: us) = bareExpression (t :: us) := by
  unfold statement
  split
  · next name _ _ rest heq =>
    obtain ⟨rfl, rfl⟩ := List.cons.inj heq
    have hname (hmem : name ∈ defineNames ++ printNames) : False :=
      h name hmem rfl _ rest rfl rfl
    rw [if_neg fun hdefine => hname (List.mem_append_left _ hdefine),
      if_neg fun hprint => hname (List.mem_append_right _ hprint)]
  · rfl

/-- How the reading of a statement stands that begins with an opening parenthesis and a name. -/
theorem stands_statement_of_name {o word : Token} (ho : o.kind = .leftParen) {name : String}
    (hword : word.kind = .identifier name) (hname : name ∈ defineNames ++ printNames)
    (h : HasRoom limit ts) : Stands limit IsConclusive statement (o :: word :: ts) := by
  obtain ⟨_, lexeme, p⟩ := o
  obtain ⟨_, lexeme', p'⟩ := word
  obtain rfl := ho
  obtain rfl := hword
  have hstands : Stands limit IsConclusive
      (fun us => statement (⟨.leftParen, lexeme, p⟩ :: us))
      (⟨.identifier name, lexeme', p'⟩ :: ts) := by
    by_cases hdefine : name ∈ defineNames
    · refine (stands_definition h).cons fun us => ?_
      simp only [statement, if_pos hdefine]
    · have hprint : name ∈ printNames := (List.mem_append.1 hname).resolve_left hdefine
      refine (stands_closedBy .print h).cons fun us => ?_
      simp only [statement, if_neg hdefine, if_pos hprint]
  exact hstands.cons fun _ => rfl

/-- How the reading of a statement stands. -/
theorem stands_statement (h : HasRoom limit ts) : Stands limit IsConclusive statement ts := by
  cases ts with
  | nil =>
    have hfiller : Admissible limit [filler .start] := admissible_of_start h.pos (by simp [filler])
    exact .unfinished _ (.error (.notAStatement "null")) rfl (List.cons_ne_nil _ _) hfiller trivial
      rfl
  | cons t ts =>
    by_cases hopen : t.kind = .leftParen
    · cases ts with
      | nil =>
        -- The next token decides what is begun, and an application is the simplest choice.
        obtain ⟨_, lexeme, p⟩ := t
        obtain rfl := hopen
        have hmissing : Admissible limit [filler .start, closer] :=
          admissible_of_start h.pos (by simp [filler, closer])
        exact .unfinished _ (.error (.notAStatement (Expr.application .null []).sourceText)) rfl
          (List.cons_ne_nil _ _) hmissing trivial rfl
      | cons word ts =>
        by_cases hname : ∃ name ∈ defineNames ++ printNames, word.kind = .identifier name
        · obtain ⟨name, hname, hword⟩ := hname
          exact stands_statement_of_name hopen hword hname h.tail.tail
        · refine (stands_bareExpression h).congr fun us => statement_eq_bareExpression ?_
          rintro name hmem - u rest heq hu
          obtain ⟨rfl, -⟩ := List.cons.inj heq
          exact hname ⟨name, hmem, hu⟩
    · exact (stands_bareExpression h).congr fun us =>
        statement_eq_bareExpression fun _ _ hkind => absurd hkind hopen

/-! ## Programs -/

/-- Statements after one that has been read. -/
theorem statements_of_ok {rest : List Token} {s : Statement} (hend : atEnd ts = false)
    (h : statement ts = (.ok s, rest)) :
    statements ts = ((statements rest).1.map (s :: ·), (statements rest).2) := by
  rw [statements, hend]
  simp only [Bool.false_eq_true, if_false]
  split
  · next heq => simp [h] at heq
  · next heq =>
    rw [h] at heq
    cases heq
    obtain ⟨result, rest'⟩ := statements rest
    cases result <;> rfl

/-- A statement that fails is the end of a program. -/
theorem statements_of_error {rest : List Token} {err : ReadError} (hend : atEnd ts = false)
    (h : statement ts = (.error err, rest)) : statements ts = (.error err, rest) := by
  rw [statements, hend]
  simp only [Bool.false_eq_true, if_false]
  split
  · next heq =>
    rw [h] at heq
    cases heq
    rfl
  · next heq => simp [h] at heq

/-- How the reading of statements stands, unless they are complete. -/
theorem stands_statements (h : HasRoom limit ts) :
    (∃ ss, statements ts = (.ok ss, [])) ∨ Stands limit IsConclusive statements ts := by
  have hnil : statements [] = (.ok [], []) := by
    rw [statements]
    rfl
  -- The induction is on the tokens that are left after each statement.
  induction hn : ts.length using Nat.strongRecOn generalizing ts with
  | ind n ih =>
    by_cases hts : ts = []
    · exact .inl ⟨[], hts ▸ hnil⟩
    have hend (us : List Token) : atEnd (ts ++ us) = false := by
      obtain ⟨t, ts, rfl⟩ := List.exists_cons_of_ne_nil hts
      simpa [atEnd] using h.kind t List.mem_cons_self
    cases stands_statement h with
    | settled r used rest hsplit hr hread =>
      cases r with
      | error err =>
        refine .inr (.settled (.error err) used rest hsplit ?_ fun us =>
          statements_of_error (hend us) (hread us))
        cases err <;> exact hr
      | ok s =>
        subst hsplit
        have hcons (us : List Token) := statements_of_ok (hend us) (hread us)
        have hlast := hread []
        rw [List.append_nil, List.append_nil] at hlast
        have hlt := statement_length_lt hlast
        rcases ih rest.length (by omega) h.of_append rfl with ⟨ss, hss⟩ | hstands
        · have hall := hcons []
          rw [List.append_nil, List.append_nil, hss] at hall
          exact .inl ⟨s :: ss, hall⟩
        · refine .inr (hstands.after used (Except.map (s :: ·)) ?_ (fun _ => rfl) fun us => ?_)
          · rintro (err | ss) hr
            · exact hr
            · exact trivial
          · rw [← List.append_assoc]
            exact hcons us
    | refused used t rest f hsplit hread =>
      exact .inr (.refused used t rest f hsplit fun us => statements_of_error (hend us) (hread us))
    | unfinished us r hlast hne hus hr hread =>
      have hopen := hend []
      rw [List.append_nil] at hopen
      have herror := statements_of_error hopen hlast
      cases r with
      | error err =>
        refine .inr (.unfinished us (.error err) herror hne hus ?_
          (statements_of_error (hend us) hread))
        cases err <;> exact hr
      | ok s =>
        refine .inr (.unfinished us (.ok [s]) herror hne hus trivial ?_)
        rw [statements_of_ok (hend us) hread, hnil]
        rfl

/-! ## Whole lists -/

/-- How the reading of a list as one expression stands, unless it is complete. -/
theorem stands_singleExpression (h : HasRoom limit ts) :
    (∃ e, singleExpression ts = (.ok e, []))
      ∨ Stands limit (fun r => ∃ e, r = .ok e) singleExpression ts := by
  cases stands_expression h with
  | settled r used rest hts hr hread =>
    obtain ⟨e, rfl⟩ := hr
    have hrest (us : List Token) : singleExpression (ts ++ us) = requireEnd e (rest ++ us) := by
      simp only [singleExpression, hread us]
    cases rest with
    | nil =>
      have hend := hrest []
      rw [List.append_nil] at hend
      exact .inl ⟨e, hend⟩
    | cons t rest =>
      -- Whatever stands after a whole expression is refused.
      have hkind : t.kind ≠ .endOfInput := h.kind t (by simp [hts])
      refine .inr (.refused used t rest (.expected .endOfInput t.kind) hts fun us => ?_)
      rw [hrest, List.cons_append, requireEnd, if_neg hkind]
      rfl
  | refused used t rest f hts hread =>
    refine .inr (.refused used t rest f hts fun us => ?_)
    simp only [singleExpression, hread us]
  | unfinished us r hend hne hus hr hread =>
    obtain ⟨e, rfl⟩ := hr
    refine .inr (.unfinished us (.ok e) ?_ hne hus ⟨e, rfl⟩ ?_)
    · simp only [singleExpression, hend]
    · simp only [singleExpression, hread, requireEnd]

section

variable {good : Except ReadError α → Prop} {read : List Token → Reading α}

/-- What holds whatever follows holds if nothing does. -/
theorem read_eq_of_append {r : Except ReadError α} {rest : List Token}
    (h : ∀ us, read (ts ++ us) = (r, rest ++ us)) : read ts = (r, rest) := by
  have hnil := h []
  rwa [List.append_nil, List.append_nil] at hnil

/-- A fault is found at one of the tokens and stays. -/
theorem Stands.fault_final (h : Stands limit good read ts)
    (hgood : ∀ p f, ¬ good (.error (.fault p f))) {p : Position} {f : Fault}
    (hfault : (read ts).1 = .error (.fault p f)) :
    (∀ us, (read (ts ++ us)).1 = .error (.fault p f))
      ∧ ∃ used t rest, ts = used ++ t :: rest ∧ t.position = p
        ∧ read ts = (.error (.fault p f), t :: rest) := by
  cases h with
  | settled r used rest hts hr hread =>
    rw [read_eq_of_append hread] at hfault
    exact absurd (hfault ▸ hr) (hgood p f)
  | refused used t rest fault hts hread =>
    -- Reading stopped at a token of the list, so nothing after it was looked at.
    have hlast := read_eq_of_append hread
    rw [hlast] at hfault
    cases hfault
    exact ⟨fun us => by rw [hread us], used, t, rest, hts, rfl, hlast⟩
  | unfinished us r hend =>
    rw [hend] at hfault
    nomatch hfault

/-- A good end stays. -/
theorem Stands.good_final (h : Stands limit good read ts)
    (hfault : ∀ p f, ¬ good (.error (.fault p f))) (hopen : ¬ good (.error .unexpectedEnd))
    (hgood : good (read ts).1) (us : List Token) : (read (ts ++ us)).1 = (read ts).1 := by
  cases h with
  | settled r used rest hts hr hread => rw [hread us, read_eq_of_append hread]
  | refused used t rest f hts hread =>
    rw [read_eq_of_append hread] at hgood
    exact absurd hgood (hfault _ _)
  | unfinished us r hend =>
    rw [hend] at hgood
    exact absurd hgood hopen

/-- A reading ends for want of tokens exactly if it is not at a good end and can be brought to
one. -/
theorem Stands.eq_unexpectedEnd_iff (h : Stands limit good read ts)
    (hfault : ∀ p f, ¬ good (.error (.fault p f))) (hopen : ¬ good (.error .unexpectedEnd)) :
    (read ts).1 = .error .unexpectedEnd
      ↔ ¬ good (read ts).1 ∧ ∃ us, Admissible limit us ∧ good (read (ts ++ us)).1 := by
  -- Of the three outcomes only the last is the end of the input, and it is the one that can be
  -- completed.
  cases h with
  | settled r used rest hts hr hread =>
    rw [read_eq_of_append hread]
    constructor
    · rintro rfl
      exact absurd hr hopen
    · rintro ⟨hts, -⟩
      exact absurd hr hts
  | refused used t rest f hts hread =>
    rw [read_eq_of_append hread]
    constructor
    · exact nofun
    · rintro ⟨-, us, -, hus⟩
      rw [hread us] at hus
      exact absurd hus (hfault _ _)
  | unfinished us r hend hne hus hr hread =>
    rw [hend]
    exact ⟨fun _ => ⟨hopen, us, hus, by rwa [hread]⟩, fun _ => rfl⟩

end

end

/-- A program fails as its statements do. -/
theorem programOfTokens_eq_error_iff {ts : List Token} {err : ReadError} :
    programOfTokens ts = .error err ↔ (statements ts).1 = .error err := by
  unfold programOfTokens
  cases (statements ts).1 with
  | ok ss => exact ⟨nofun, nofun⟩
  | error err' => simp [Except.map]

/-- Statements are conclusive exactly if they are a program or an expression stands among them. -/
theorem isConclusive_statements_iff {ts : List Token} :
    IsConclusive (statements ts).1 ↔ (∃ p, programOfTokens ts = .ok p)
      ∨ ∃ form, programOfTokens ts = .error (.notAStatement form) := by
  unfold programOfTokens
  cases (statements ts).1 with
  | ok ss => simp [IsConclusive, Except.map]
  | error err => cases err <;> simp [IsConclusive, Except.map]

/-! ## What is final -/

/-- Every error but `unexpectedEnd` is final: it is found at one of the tokens, and nothing that
follows changes it. With `unexpectedEnd` the reader asks for more, and there are tokens that satisfy
it. A complete expression takes no further token. The same holds for programs, where an expression
in the place of a statement is as final as a fault. -/
theorem final_unless_unexpectedEnd {ts : List Token} (h : ∀ t ∈ ts, t.kind ≠ .endOfInput) :
    (∀ p f, expressionOfTokens ts = .error (.fault p f) →
      (∀ us, expressionOfTokens (ts ++ us) = .error (.fault p f))
      ∧ ∃ used t rest, ts = used ++ t :: rest ∧ t.position = p
        ∧ singleExpression ts = (.error (.fault p f), t :: rest))
    ∧ (∀ limit, HasRoom limit ts → (expressionOfTokens ts = .error .unexpectedEnd ↔
      (∀ e, expressionOfTokens ts ≠ .ok e)
      ∧ ∃ us e, us ≠ [] ∧ Admissible limit us ∧ expressionOfTokens (ts ++ us) = .ok e))
    ∧ (∀ e, expressionOfTokens ts = .ok e → ∀ u us, u.kind ≠ .endOfInput →
      expressionOfTokens (ts ++ u :: us)
        = .error (.fault u.position (.expected .endOfInput u.kind)))
    ∧ (∀ p f, programOfTokens ts = .error (.fault p f) →
      (∀ us, programOfTokens (ts ++ us) = .error (.fault p f))
      ∧ ∃ used t rest, ts = used ++ t :: rest ∧ t.position = p
        ∧ statements ts = (.error (.fault p f), t :: rest))
    ∧ (∀ form, programOfTokens ts = .error (.notAStatement form) →
      ∀ us, programOfTokens (ts ++ us) = .error (.notAStatement form))
    ∧ (∀ limit, HasRoom limit ts → (programOfTokens ts = .error .unexpectedEnd ↔
      (∀ p, programOfTokens ts ≠ .ok p)
      ∧ (∀ form, programOfTokens ts ≠ .error (.notAStatement form))
      ∧ ∃ us, Admissible limit us ∧ ((∃ p, programOfTokens (ts ++ us) = .ok p)
        ∨ ∃ form, programOfTokens (ts ++ us) = .error (.notAStatement form)))) := by
  obtain ⟨room, hroom⟩ := exists_hasRoom h
  refine ⟨fun p f hfault => ?_, fun limit hlimit => ?_, fun e he u us hu => ?_,
    fun p f hfault => ?_, fun form hform us => ?_, fun limit hlimit => ?_⟩
  · rcases stands_singleExpression hroom with ⟨e, he⟩ | hstands
    · rw [expressionOfTokens, he] at hfault
      cases hfault
    · exact hstands.fault_final (by simp) hfault
  · rcases stands_singleExpression hlimit with ⟨e, he⟩ | hstands
    · simp [expressionOfTokens, he]
    · refine (hstands.eq_unexpectedEnd_iff (by simp) (by simp)).trans ?_
      rw [not_exists]
      refine and_congr_right fun hnone => ⟨?_, ?_⟩
      · rintro ⟨us, hus, e, he⟩
        -- The completion is not empty, since the list alone does not read.
        refine ⟨us, e, ?_, hus, he⟩
        rintro rfl
        rw [List.append_nil] at he
        exact hnone e he
      · rintro ⟨us, e, -, hus, he⟩
        exact ⟨us, hus, e, he⟩
  · -- A whole expression is followed by a token that is not the end.
    have hderives : Derives ts e := (expressionOfTokens_eq_ok_iff h).1 he
    simp only [expressionOfTokens, singleExpression, hderives.expression_eq, requireEnd, if_neg hu]
    rfl
  · rw [programOfTokens_eq_error_iff] at hfault
    simp only [programOfTokens_eq_error_iff]
    rcases stands_statements hroom with ⟨ss, hss⟩ | hstands
    · rw [hss] at hfault
      cases hfault
    · exact hstands.fault_final (fun _ _ => id) hfault
  · rw [programOfTokens_eq_error_iff] at hform ⊢
    rcases stands_statements hroom with ⟨ss, hss⟩ | hstands
    · rw [hss] at hform
      cases hform
    · rw [hstands.good_final (fun _ _ => id) id (hform ▸ trivial) us, hform]
  · rcases stands_statements hlimit with ⟨ss, hss⟩ | hstands
    · simp [programOfTokens, hss, Except.map]
    · rw [programOfTokens_eq_error_iff, hstands.eq_unexpectedEnd_iff (fun _ _ => id) id,
        isConclusive_statements_iff, not_or, not_exists, not_exists, and_assoc]
      simp only [isConclusive_statements_iff]

/-- The tokens of `(if :`. -/
def danglingColon : List Token :=
  [⟨.leftParen, "(", ⟨3, 1⟩⟩, ⟨.identifier "if", "if", ⟨3, 2⟩⟩, ⟨.colon, ":", ⟨3, 5⟩⟩]

/-- The name of a keyword, two more expressions and a parenthesis are missing, and there is room for
the name if columns go up to 6. A number in its place is refused, whatever follows. -/
theorem final_unless_unexpectedEnd_danglingColon :
    (∃ us e, us ≠ [] ∧ Admissible 6 us ∧ expressionOfTokens (danglingColon ++ us) = .ok e)
    ∧ ∀ us, expressionOfTokens (danglingColon ++ [⟨.number 1, "1", ⟨3, 6⟩⟩] ++ us)
      = .error (.fault ⟨3, 6⟩ (.expected .keywordName (.number 1))) := by
  have hkind : ∀ t ∈ danglingColon, t.kind ≠ .endOfInput := by decide
  have hkind' : ∀ t ∈ danglingColon ++ [⟨.number 1, "1", ⟨3, 6⟩⟩], t.kind ≠ .endOfInput := by decide
  have hroom : HasRoom 6 danglingColon := ⟨by decide, hkind, by decide, by decide⟩
  obtain ⟨-, hopen, -⟩ := final_unless_unexpectedEnd hkind
  obtain ⟨hfinal, -⟩ := final_unless_unexpectedEnd hkind'
  exact ⟨((hopen 6 hroom).1 rfl).2, (hfinal _ _ rfl).1⟩

end ObjectLisp.Reader
