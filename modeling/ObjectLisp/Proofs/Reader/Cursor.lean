import ObjectLisp.Proofs.Reader.Completion
import ObjectLisp.Proofs.Reader.Spacing

/-!
# The cursor of the reader

The reader may also be seen as a machine with a cursor in a list of tokens that does not change.
`Cursor.next` is one move of it: it looks at the token at the cursor, and once at the token after
that, and goes on or stops. A look past the end of the list has no answer, and then there is no
move.

The list is `sealed`, which means that it has an end-of-input token, and the first one may stand
anywhere in it. As long as the cursor has not passed it, there is a move, it does not lead past it,
and it does what the reader does with the tokens that are left (`Moves.follows`). A move takes a
token, or the one after it does, so the reader comes to a stop.
-/

namespace ObjectLisp.Reader

variable {α : Type} {tokens tokens' : List Token} {i : Nat}

/-! ## The end of the input -/

/-- The tokens, with an end-of-input token after them unless the last one is one. -/
def sealed (tokens : List Token) : List Token :=
  match tokens.getLast? with
  | none => [⟨.endOfInput, "", .start⟩]
  | some t => if t.kind = .endOfInput then tokens else tokens ++ [⟨.endOfInput, "", t.position⟩]

/-- The index of the first end-of-input token, and so the number of tokens before it. -/
def firstEnd (tokens : List Token) : Nat := tokens.findIdx fun t => t.kind == .endOfInput

/-- Either the list has an end of the input and stays as it is, or it gets one more token, which is
one. -/
theorem sealed_cases (tokens : List Token) :
    (∃ t ∈ tokens, t.kind = .endOfInput) ∧ sealed tokens = tokens
    ∨ ∃ t : Token, t.kind = .endOfInput ∧ sealed tokens = tokens ++ [t] := by
  unfold sealed
  split
  · next h => exact .inr ⟨_, rfl, by rw [List.getLast?_eq_none_iff.1 h, List.nil_append]⟩
  · next t h =>
    split
    · next ht => exact .inl ⟨⟨t, List.mem_of_getLast? h, ht⟩, rfl⟩
    · exact .inr ⟨_, rfl, rfl⟩

/-- The first end of the input is a token of the list, or the one after its last. -/
theorem firstEnd_le_length (tokens : List Token) : firstEnd tokens ≤ tokens.length :=
  List.findIdx_le_length

/-- What stands at an index up to the first end of the input: a token before it, or the end. -/
inductive TokenAt (tokens : List Token) (i : Nat) : Prop
  | before {t : Token} (hlt : i < firstEnd tokens) (hkind : t.kind ≠ .endOfInput)
      (hlook : (sealed tokens)[i]? = some t) (hdrop : tokens.drop i = t :: tokens.drop (i + 1))
  | last {t : Token} (hi : i = firstEnd tokens) (hkind : t.kind = .endOfInput)
      (hlook : (sealed tokens)[i]? = some t) (hend : atEnd (tokens.drop i) = true)

/-- There is a token at every index up to the first end of the input. -/
theorem tokenAt (h : i ≤ firstEnd tokens) : TokenAt tokens i := by
  -- What is added stands behind all tokens, so it hides none of them.
  have hsealed : ∀ hi : i < tokens.length, (sealed tokens)[i]? = some tokens[i] := by
    intro hi
    rcases sealed_cases tokens with ⟨-, heq⟩ | ⟨t, -, heq⟩
    · rw [heq, List.getElem?_eq_getElem hi]
    · rw [heq, List.getElem?_append_left hi, List.getElem?_eq_getElem hi]
  rcases Nat.lt_or_eq_of_le h with hlt | rfl
  · have hi : i < tokens.length := Nat.lt_of_lt_of_le hlt (firstEnd_le_length tokens)
    have hkind := List.not_of_lt_findIdx hlt
    exact .before hlt (by simpa using hkind) (hsealed hi) (List.drop_eq_getElem_cons hi)
  · rcases Nat.lt_or_eq_of_le (firstEnd_le_length tokens) with hi | hi
    · have hkind : tokens[firstEnd tokens].kind = .endOfInput := by
        exact beq_iff_eq.1 (List.findIdx_getElem (w := hi))
      refine .last rfl hkind (hsealed hi) ?_
      rw [List.drop_eq_getElem_cons hi, atEnd, hkind]
      rfl
    · -- No token is the end of the input, so one was added.
      rcases sealed_cases tokens with ⟨⟨t, ht, hkind⟩, -⟩ | ⟨t, hkind, heq⟩
      · have hlt : firstEnd tokens < tokens.length :=
          List.findIdx_lt_length_of_exists ⟨t, ht, by simp [hkind]⟩
        exact absurd hi (Nat.ne_of_lt hlt)
      · refine .last rfl hkind ?_ ?_
        · rw [heq, hi, List.getElem?_concat_length]
        · rw [hi, List.drop_length]
          rfl

/-! ## Moves -/

/-- What a call of the reader hands out. -/
inductive Answer where
  | expression (e : Expr)
  | program (ss : List Statement)

/-- What an expression is read for: to be handed out, or to be handed out if the tokens end after
it, or to be refused because a statement has to stand in its place, or to make a statement of a
program. -/
inductive Purpose where
  | value
  | whole
  | bare
  | statement (done : List Statement) (make : Expr → Statement)

/-- What the reader is about to do: to read on in an expression, to do something with a finished
one, to begin a statement, or to read the name that a definition is for. Statements that are
finished are kept. -/
inductive Control where
  | reading (s : Partial) (purpose : Purpose)
  | finished (e : Expr) (purpose : Purpose)
  | statements (done : List Statement)
  | definition (done : List Statement)

/-- One move: the reader goes on after a number of tokens, or it stops at the cursor. -/
inductive Move where
  | goOn (control : Control) (used : Nat)
  | stop (r : Except ReadError Answer)

/-- The move that is made, if `look k` is the token `k` places after the cursor. -/
def Control.move (look : Nat → Option Token) : Control → Option Move
  | .reading s purpose => (look 0).map fun t =>
    match step s t with
    | .error e => .stop (.error e)
    | .ok (.done e) => .goOn (.finished e purpose) 1
    | .ok (.more s) => .goOn (.reading s purpose) 1
  | .finished e .value => some (.stop (.ok (.expression e)))
  | .finished e .whole => (look 0).map fun t =>
    if t.kind = .endOfInput then .stop (.ok (.expression e))
    else .stop (.error (mismatch .endOfInput t))
  | .finished e .bare => some (.stop (.error (.notAStatement e.sourceText)))
  | .finished e (.statement done make) => (look 0).map fun t =>
    match t.kind with
    | .rightParen => .goOn (.statements (done ++ [make e])) 1
    | .endOfInput => .stop (.error .unexpectedEnd)
    | _ => .stop (.error (mismatch .rightParen t))
  | .statements done => (look 0).bind fun t =>
    match t.kind with
    | .endOfInput => some (.stop (.ok (.program done)))
    | .leftParen => (look 1).map fun u =>
      match u.kind with
      | .identifier name =>
        if name ∈ defineNames then .goOn (.definition done) 2
        else if name ∈ printNames then .goOn (.reading .start (.statement done .print)) 2
        else .goOn (.reading .start .bare) 0
      | _ => .goOn (.reading .start .bare) 0
    | _ => some (.goOn (.reading .start .bare) 0)
  | .definition done => (look 0).map fun t =>
    match t.kind with
    | .identifier name => .goOn (.reading .start (.statement done (.define name))) 1
    | .endOfInput => .stop (.error .unexpectedEnd)
    | _ => .stop (.error (mismatch .nameToDefine t))

/-- The reader at an index of the tokens. -/
structure Cursor where
  control : Control
  index : Nat

/-- The next move, unless it takes a look at a token that is not there. -/
def Cursor.next (tokens : List Token) (c : Cursor) : Option Move :=
  c.control.move fun k => (sealed tokens)[c.index + k]?

/-- The reader goes on from one place to another. -/
def Moves (tokens : List Token) (c c' : Cursor) : Prop :=
  ∃ used, c.next tokens = some (.goOn c'.control used) ∧ c'.index = c.index + used

/-- The reader goes on until it stops, with a result and at an index. -/
inductive Runs (tokens : List Token) : Cursor → Except ReadError Answer → Nat → Prop
  | stop {c : Cursor} {r : Except ReadError Answer} (h : c.next tokens = some (.stop r)) :
      Runs tokens c r c.index
  | move {c c' : Cursor} {r : Except ReadError Answer} {n : Nat} (h : Moves tokens c c')
      (h' : Runs tokens c' r n) : Runs tokens c r n

/-! ## What is read from a place on -/

/-- Read statements after those that are finished. -/
def programAfter (done : List Statement) (rest : List Token) : Reading Answer :=
  andThen (statements rest) fun ss rest' => (.ok (.program (done ++ ss)), rest')

/-- Do with an expression what it is read for. -/
def Purpose.complete : Purpose → Expr → List Token → Reading Answer
  | .value, e, rest => (.ok (.expression e), rest)
  | .whole, e, rest => andThen (requireEnd e rest) fun e rest' => (.ok (.expression e), rest')
  | .bare, e, rest => (.error (.notAStatement e.sourceText), rest)
  | .statement done make, e, rest =>
    andThen (closeStatement (make e) rest) fun s => programAfter (done ++ [s])

/-- Read the tokens that are left to the end of the call. -/
def Control.complete : Control → List Token → Reading Answer
  | .reading s purpose, rest => andThen (resume s rest) purpose.complete
  | .finished e purpose, rest => purpose.complete e rest
  | .statements done, rest => programAfter done rest
  | .definition done, rest => andThen (Reader.definition rest) fun s => programAfter (done ++ [s])

section

variable {ts : List Token} {t : Token}

/-- No expression goes on at the end of the input, whatever has been read of it. -/
theorem step_endOfInput (ht : t.kind = .endOfInput) (s : Partial) :
    step s t = .error .unexpectedEnd := by
  obtain ⟨mode, stack⟩ := s
  cases mode <;> simp only [step, expressionToken, keywordToken, ht]

/-- Where the tokens have ended, an unfinished expression is refused and nothing is used. -/
theorem resume_of_atEnd (h : atEnd ts = true) (s : Partial) :
    resume s ts = (.error .unexpectedEnd, ts) := by
  cases ts with
  | nil => rfl
  | cons t ts => rw [resume, step_endOfInput (beq_iff_eq.1 h)]

/-- Where the tokens have ended, a single expression is as it should be. -/
theorem requireEnd_of_atEnd (h : atEnd ts = true) (e : Expr) : requireEnd e ts = (.ok e, ts) := by
  cases ts with
  | nil => rfl
  | cons t ts => rw [requireEnd, if_pos (beq_iff_eq.1 h)]

/-- Where the tokens have ended, no statement is closed. -/
theorem closeStatement_of_atEnd (h : atEnd ts = true) (s : Statement) :
    closeStatement s ts = (.error .unexpectedEnd, ts) := by
  cases ts with
  | nil => rfl
  | cons t ts => simp only [closeStatement, beq_iff_eq.1 h]

/-- Where the tokens have ended, there is no name to define. -/
theorem definition_of_atEnd (h : atEnd ts = true) :
    definition ts = (.error .unexpectedEnd, ts) := by
  cases ts with
  | nil => rfl
  | cons t ts => simp only [definition, beq_iff_eq.1 h]

/-- Where the tokens have ended, the finished statements are the program. -/
theorem programAfter_of_atEnd (h : atEnd ts = true) (done : List Statement) :
    programAfter done ts = (.ok (.program done), ts) := by
  rw [programAfter, statements_eq_andThen, if_pos h, andThen, List.append_nil]

/-- A program goes on with its first statement. -/
theorem programAfter_of_not_atEnd (h : atEnd ts = false) (done : List Statement) :
    programAfter done ts = andThen (statement ts) fun s => programAfter (done ++ [s]) := by
  rw [programAfter, statements_eq_andThen, h, if_neg Bool.false_ne_true, andThen_assoc]
  -- Both sides begin with the same statement; what is left is to move it to the finished ones.
  congr 1
  funext s rest
  rw [andThen_assoc, programAfter]
  simp only [andThen, List.append_assoc, List.singleton_append]

end

/-! ## What a move does -/

/-- The number of moves ahead that take no token: a statement may turn out to be an expression. -/
def Control.patience : Control → Nat
  | .statements _ => 1
  | _ => 0

/-- A move does what is left to do, takes no token past the end of the input, and gets on. -/
def Move.Follows (tokens : List Token) (c : Cursor) : Move → Prop
  | .stop r => c.control.complete (tokens.drop c.index) = (r, tokens.drop c.index)
  | .goOn control used => c.index + used ≤ firstEnd tokens
    ∧ control.patience < c.control.patience + 2 * used
    ∧ control.complete (tokens.drop (c.index + used)) = c.control.complete (tokens.drop c.index)

/-- There is a next move, and it does what is left to do. -/
def Cursor.GoesOn (tokens : List Token) (c : Cursor) : Prop :=
  ∃ m, c.next tokens = some m ∧ m.Follows tokens c

/-- A move that takes a token gets on. -/
theorem patience_lt (control control' : Control) {used : Nat} (h : 0 < used) :
    control.patience < control'.patience + 2 * used := by
  have hle : control.patience ≤ 1 := by
    cases control <;> simp only [Control.patience, Nat.le_refl, Nat.zero_le]
  omega

/-- An expression takes one more token, or ends at the token that it cannot take. -/
theorem goesOn_reading (h : i ≤ firstEnd tokens) (s : Partial) (purpose : Purpose) :
    Cursor.GoesOn tokens ⟨.reading s purpose, i⟩ := by
  unfold Cursor.GoesOn Cursor.next
  rcases tokenAt h with ⟨hlt, hkind, hlook, hdrop⟩ | ⟨-, hkind, hlook, hend⟩
  · -- The token decides: it is refused, or it is taken and the expression is finished or not.
    simp only [Control.move, Nat.add_zero, hlook, Option.map_some]
    refine ⟨_, rfl, ?_⟩
    cases hstep : step s _ with
    | error e => simp only [Move.Follows, Control.complete, hdrop, resume, hstep, andThen]
    | ok next =>
      cases next with
      | done e =>
        refine ⟨hlt, patience_lt _ _ Nat.one_pos, ?_⟩
        simp only [Control.complete, hdrop, resume, hstep, andThen]
      | more s' =>
        refine ⟨hlt, patience_lt _ _ Nat.one_pos, ?_⟩
        simp only [Control.complete, hdrop, resume, hstep]
  · -- The end of the input is refused in every mode.
    simp only [Control.move, Nat.add_zero, hlook, Option.map_some, step_endOfInput hkind]
    refine ⟨_, rfl, ?_⟩
    simp only [Move.Follows, Control.complete, resume_of_atEnd hend, andThen]

/-- A finished expression is handed out, refused, or closed as a statement, as its purpose asks. -/
theorem goesOn_finished (h : i ≤ firstEnd tokens) (e : Expr) (purpose : Purpose) :
    Cursor.GoesOn tokens ⟨.finished e purpose, i⟩ := by
  unfold Cursor.GoesOn Cursor.next
  -- Two purposes need no look at all, and the other two look at the token after the expression.
  cases purpose with
  | value => exact ⟨_, rfl, rfl⟩
  | bare => exact ⟨_, rfl, rfl⟩
  | whole =>
    rcases tokenAt h with ⟨-, hkind, hlook, hdrop⟩ | ⟨-, hkind, hlook, hend⟩
    · simp only [Control.move, Nat.add_zero, hlook, Option.map_some, if_neg hkind]
      refine ⟨_, rfl, ?_⟩
      simp only [Move.Follows, Control.complete, Purpose.complete, hdrop, requireEnd, if_neg hkind,
        andThen]
    · simp only [Control.move, Nat.add_zero, hlook, Option.map_some, if_pos hkind]
      refine ⟨_, rfl, ?_⟩
      simp only [Move.Follows, Control.complete, Purpose.complete, requireEnd_of_atEnd hend,
        andThen]
  | statement done make =>
    rcases tokenAt h with ⟨hlt, hkind, hlook, hdrop⟩ | ⟨-, hkind, hlook, hend⟩
    · simp only [Control.move, Nat.add_zero, hlook, Option.map_some]
      refine ⟨_, rfl, ?_⟩
      split
      · next hclose =>
        refine ⟨hlt, patience_lt _ _ Nat.one_pos, ?_⟩
        simp only [Control.complete, Purpose.complete, hdrop, closeStatement, hclose, andThen]
      · -- Before the end of the input there is another token.
        next hend => exact absurd hend hkind
      · simp only [Move.Follows, Control.complete, Purpose.complete, hdrop, closeStatement, andThen]
    · simp only [Control.move, Nat.add_zero, hlook, Option.map_some, hkind]
      refine ⟨_, rfl, ?_⟩
      simp only [Move.Follows, Control.complete, Purpose.complete, closeStatement_of_atEnd hend,
        andThen]

/-- A definition takes a name, and then reads the expression for it. -/
theorem goesOn_definition (h : i ≤ firstEnd tokens) (done : List Statement) :
    Cursor.GoesOn tokens ⟨.definition done, i⟩ := by
  unfold Cursor.GoesOn Cursor.next
  rcases tokenAt h with ⟨hlt, hkind, hlook, hdrop⟩ | ⟨-, hkind, hlook, hend⟩
  · simp only [Control.move, Nat.add_zero, hlook, Option.map_some]
    refine ⟨_, rfl, ?_⟩
    split
    · next name hname =>
      refine ⟨hlt, patience_lt _ _ Nat.one_pos, ?_⟩
      simp only [Control.complete, hdrop, definition, hname, closedBy_eq_andThen, andThen_assoc]
      rfl
    · next hend => exact absurd hend hkind
    · simp only [Move.Follows, Control.complete, hdrop, definition, andThen]
  · simp only [Control.move, Nat.add_zero, hlook, Option.map_some, hkind]
    refine ⟨_, rfl, ?_⟩
    simp only [Move.Follows, Control.complete, definition_of_atEnd hend, andThen]

section

variable {done : List Statement} {name : String} {o word : Token} {ts : List Token}

/-- A parenthesis and the name of a definition begin one. -/
theorem statement_eq_definition (ho : o.kind = .leftParen) (hword : word.kind = .identifier name)
    (h : name ∈ defineNames) : statement (o :: word :: ts) = Reader.definition ts := by
  obtain ⟨_, _, _⟩ := o
  obtain ⟨_, _, _⟩ := word
  obtain rfl := ho
  obtain rfl := hword
  rw [statement, if_pos h]

/-- A parenthesis and the name of a print statement begin one. -/
theorem statement_eq_closedBy (ho : o.kind = .leftParen) (hword : word.kind = .identifier name)
    (hdefine : name ∉ defineNames) (h : name ∈ printNames) :
    statement (o :: word :: ts) = closedBy .print ts := by
  obtain ⟨_, _, _⟩ := o
  obtain ⟨_, _, _⟩ := word
  obtain rfl := ho
  obtain rfl := hword
  rw [statement, if_neg hdefine, if_pos h]

/-- Where no statement begins, an expression is read, and then refused. -/
theorem goesOn_bare (h : i ≤ firstEnd tokens) (hend : atEnd (tokens.drop i) = false)
    (hnext : Cursor.next tokens ⟨.statements done, i⟩ = some (.goOn (.reading .start .bare) 0))
    (hstatement : statement (tokens.drop i) = bareExpression (tokens.drop i)) :
    Cursor.GoesOn tokens ⟨.statements done, i⟩ := by
  refine ⟨_, hnext, h, Nat.one_pos, ?_⟩
  simp only [Nat.add_zero, Control.complete, programAfter_of_not_atEnd hend, hstatement,
    bareExpression_eq_andThen, andThen_assoc]
  rfl

/-- A definition or a print statement begins with two tokens. -/
theorem goesOn_named (hword : word.kind = .identifier name)
    (hname : name ∈ defineNames ++ printNames) (ho : o.kind = .leftParen)
    (hlt : i + 1 < firstEnd tokens) (hlook : (sealed tokens)[i]? = some o)
    (hlook' : (sealed tokens)[i + 1]? = some word)
    (hdrop : tokens.drop i = o :: word :: tokens.drop (i + 1 + 1)) :
    Cursor.GoesOn tokens ⟨.statements done, i⟩ := by
  have hend : atEnd (tokens.drop i) = false := by
    rw [hdrop, atEnd, ho]
    rfl
  unfold Cursor.GoesOn Cursor.next
  simp only [Control.move, Nat.add_zero, hlook, hlook', ho, hword, Option.bind_some,
    Option.map_some]
  refine ⟨_, rfl, ?_⟩
  -- The name is of one of two kinds, and the first kind is looked for first.
  by_cases hdefine : name ∈ defineNames
  · rw [if_pos hdefine]
    refine ⟨hlt, patience_lt _ _ Nat.two_pos, ?_⟩
    simp only [Control.complete, programAfter_of_not_atEnd hend]
    rw [hdrop, statement_eq_definition ho hword hdefine]
  · have hprint : name ∈ printNames := (List.mem_append.1 hname).resolve_left hdefine
    rw [if_neg hdefine, if_pos hprint]
    refine ⟨hlt, patience_lt _ _ Nat.two_pos, ?_⟩
    simp only [Control.complete, programAfter_of_not_atEnd hend]
    rw [hdrop, statement_eq_closedBy ho hword hdefine hprint, closedBy_eq_andThen, andThen_assoc]
    rfl

/-- The token at the cursor and the one after it decide what statement begins. -/
theorem goesOn_statements (h : i ≤ firstEnd tokens) (done : List Statement) :
    Cursor.GoesOn tokens ⟨.statements done, i⟩ := by
  rcases tokenAt h with @⟨o, hlt, hkind, hlook, hdrop⟩ | ⟨-, hkind, hlook, hend⟩
  · have hend : atEnd (tokens.drop i) = false := by
      rw [hdrop, atEnd]
      exact beq_eq_false_iff_ne.2 hkind
    -- Only behind a parenthesis does the reader look at a second token.
    by_cases ho : o.kind = .leftParen
    · rcases tokenAt hlt with @⟨word, hlt', -, hlook', hdrop'⟩ | ⟨-, hkind', hlook', hend'⟩
      · by_cases hname : ∃ name ∈ defineNames ++ printNames, word.kind = .identifier name
        · obtain ⟨name, hname, hword⟩ := hname
          exact goesOn_named hword hname ho hlt' hlook hlook' (by rw [hdrop, hdrop'])
        · -- The second token is none of the names.
          refine goesOn_bare h hend ?_ ?_
          · simp only [Cursor.next, Control.move, Nat.add_zero, hlook, hlook', ho, Option.bind_some,
              Option.map_some]
            split
            · next name hword =>
              rw [if_neg fun h => hname ⟨name, List.mem_append_left _ h, hword⟩,
                if_neg fun h => hname ⟨name, List.mem_append_right _ h, hword⟩]
            · rfl
          · rw [hdrop, hdrop']
            refine statement_eq_bareExpression ?_
            rintro name hmem - u rest heq hu
            obtain ⟨rfl, -⟩ := List.cons.inj heq
            exact hname ⟨name, hmem, hu⟩
      · -- The tokens end behind the parenthesis.
        refine goesOn_bare h hend ?_ ?_
        · simp only [Cursor.next, Control.move, Nat.add_zero, hlook, hlook', ho, hkind',
            Option.bind_some, Option.map_some]
        · rw [hdrop]
          refine statement_eq_bareExpression ?_
          rintro name - - u rest heq hu
          rw [heq, atEnd, hu] at hend'
          exact absurd hend' Bool.false_ne_true
    · -- There is no parenthesis.
      refine goesOn_bare h hend ?_ ?_
      · simp only [Cursor.next, Control.move, Nat.add_zero, hlook, Option.bind_some]
      · rw [hdrop]
        exact statement_eq_bareExpression fun _ _ hkind => absurd hkind ho
  · unfold Cursor.GoesOn Cursor.next
    simp only [Control.move, Nat.add_zero, hlook, Option.bind_some, hkind]
    refine ⟨_, rfl, ?_⟩
    simp only [Move.Follows, Control.complete, programAfter_of_atEnd hend]

end

/-- There is a move from every place that is not after the first end of the input. -/
theorem Cursor.goesOn {c : Cursor} (h : c.index ≤ firstEnd tokens) : c.GoesOn tokens := by
  obtain ⟨control, i⟩ := c
  cases control with
  | reading s purpose => exact goesOn_reading h s purpose
  | finished e purpose => exact goesOn_finished h e purpose
  | statements done => exact goesOn_statements h done
  | definition done => exact goesOn_definition h done

/-! ## Runs -/

section

variable {c c' : Cursor} {r r' : Except ReadError Answer} {n n' : Nat}

/-- An upper bound for the number of moves from here on. -/
def Cursor.weight (tokens : List Token) (c : Cursor) : Nat :=
  2 * (firstEnd tokens - c.index) + c.control.patience

/-- What one move keeps, and that it gets on. -/
theorem Moves.follows (h : Moves tokens c c') (hc : c.index ≤ firstEnd tokens) :
    c.index ≤ c'.index ∧ c'.index ≤ firstEnd tokens ∧ c'.weight tokens < c.weight tokens
    ∧ c'.control.complete (tokens.drop c'.index) = c.control.complete (tokens.drop c.index) := by
  obtain ⟨used, hnext, hindex⟩ := h
  obtain ⟨m, hm, hfollows⟩ := Cursor.goesOn hc
  obtain rfl := Option.some.inj (hm.symm.trans hnext)
  obtain ⟨hle, hpatience, hcomplete⟩ := hfollows
  rw [← hindex] at hle hcomplete
  refine ⟨by omega, hle, ?_, hcomplete⟩
  unfold Cursor.weight
  omega

/-- The cursor stays where it is or goes on, up to the first end of the input. -/
theorem index_le_of_reaches (h : Relation.ReflTransGen (Moves tokens) c c')
    (hc : c.index ≤ firstEnd tokens) : c.index ≤ c'.index ∧ c'.index ≤ firstEnd tokens := by
  induction h with
  | refl => exact ⟨Nat.le_refl _, hc⟩
  | tail _ hmove ih =>
    obtain ⟨hle, hend, -⟩ := hmove.follows ih.2
    exact ⟨Nat.le_trans ih.1 hle, hend⟩

/-- From every place the reader comes to a stop. -/
theorem exists_runs (hc : c.index ≤ firstEnd tokens) : ∃ r n, Runs tokens c r n := by
  induction hw : c.weight tokens using Nat.strongRecOn generalizing c with
  | ind w ih =>
    obtain ⟨m, hnext, -⟩ := Cursor.goesOn hc
    cases m with
    | stop r => exact ⟨r, c.index, .stop hnext⟩
    | goOn control used =>
      have hmove : Moves tokens c ⟨control, c.index + used⟩ := ⟨used, hnext, rfl⟩
      obtain ⟨-, hle, hweight, -⟩ := hmove.follows hc
      obtain ⟨r, n, hruns⟩ := ih _ (hw ▸ hweight) hle rfl
      exact ⟨r, n, .move hmove hruns⟩

/-- A run does what is left to do, and ends where the tokens begin that are not used. -/
theorem Runs.complete_eq (h : Runs tokens c r n) (hc : c.index ≤ firstEnd tokens) :
    c.index ≤ n ∧ n ≤ firstEnd tokens
    ∧ c.control.complete (tokens.drop c.index) = (r, tokens.drop n) := by
  induction h with
  | @stop c r hnext =>
    obtain ⟨m, hm, hfollows⟩ := Cursor.goesOn hc
    obtain rfl := Option.some.inj (hm.symm.trans hnext)
    exact ⟨Nat.le_refl _, hc, hfollows⟩
  | move hmove _ ih =>
    obtain ⟨hle, hend, -, hcomplete⟩ := hmove.follows hc
    obtain ⟨hle', hend', hcomplete'⟩ := ih hend
    exact ⟨Nat.le_trans hle hle', hend', hcomplete.symm.trans hcomplete'⟩

/-- There is one run from a place. -/
theorem Runs.unique (h : Runs tokens c r n) (h' : Runs tokens c r' n')
    (hc : c.index ≤ firstEnd tokens) : r' = r ∧ n' = n := by
  obtain ⟨-, hend, hcomplete⟩ := h.complete_eq hc
  obtain ⟨-, hend', hcomplete'⟩ := h'.complete_eq hc
  obtain ⟨hr, hdrop⟩ := Prod.mk.inj (hcomplete.symm.trans hcomplete')
  have hlength := congrArg List.length hdrop
  have hfirst := firstEnd_le_length tokens
  rw [List.length_drop, List.length_drop] at hlength
  exact ⟨hr.symm, by omega⟩

end

/-! ## Calls -/

/-- What can be asked for: an expression, one that is all there is, or a program. -/
inductive Entry where
  | expression
  | single
  | program

/-- What the reader is about to do at the beginning of a call. -/
def Entry.start : Entry → Control
  | .expression => .reading .start .value
  | .single => .reading .start .whole
  | .program => .statements []

/-- The reading of a call. -/
def Entry.read : Entry → List Token → Reading Answer
  | .expression, ts => andThen (Reader.expression ts) fun e rest => (.ok (.expression e), rest)
  | .single, ts => andThen (singleExpression ts) fun e rest => (.ok (.expression e), rest)
  | .program, ts => andThen (Reader.statements ts) fun ss rest => (.ok (.program ss), rest)

/-- What is left to do at the beginning of a call is the whole reading. -/
theorem Entry.complete_start (entry : Entry) (ts : List Token) :
    entry.start.complete ts = entry.read ts := by
  cases entry with
  | expression => rfl
  | single =>
    rw [Entry.read, singleExpression_eq_andThen, andThen_assoc]
    rfl
  | program => rfl

/-- Calls one after another, the last one first, each with what it hands out. The first one begins
at the first token, and every other one where the one before it has stopped, also if that one has
failed. -/
inductive Calls (tokens : List Token) : List (Entry × Except ReadError Answer) → Nat → Prop
  | nil : Calls tokens [] 0
  | call {log : List (Entry × Except ReadError Answer)} {n m : Nat} {r : Except ReadError Answer}
      (entry : Entry) (h : Calls tokens log n) (h' : Runs tokens ⟨entry.start, n⟩ r m) :
      Calls tokens ((entry, r) :: log) m

/-- No call ends behind the first end of the input. -/
theorem Calls.le_firstEnd {log : List (Entry × Except ReadError Answer)} {n : Nat}
    (h : Calls tokens log n) : n ≤ firstEnd tokens := by
  induction h with
  | nil => exact Nat.zero_le _
  | call entry _ hruns ih => exact (hruns.complete_eq ih).2.1

/-- A run for a call is the reading of the tokens that are left. -/
theorem Runs.read_eq {entry : Entry} {n m : Nat} {r : Except ReadError Answer}
    (h : Runs tokens ⟨entry.start, n⟩ r m) (hn : n ≤ firstEnd tokens) :
    n ≤ m ∧ m ≤ firstEnd tokens ∧ entry.read (tokens.drop n) = (r, tokens.drop m) := by
  rw [← entry.complete_start]
  exact h.complete_eq hn

/-- Whether an expression is handed out. -/
def isExpression : Except ReadError Answer → Bool
  | .ok (.expression _) => true
  | _ => false

/-- To look for the end takes no token. -/
theorem requireEnd_snd (e : Expr) (ts : List Token) : (requireEnd e ts).2 = ts := by
  cases ts with
  | nil => rfl
  | cons t ts =>
    rw [requireEnd]
    split <;> rfl

/-- An expression that is handed out has used at least one token. -/
theorem Entry.read_length_lt {entry : Entry} {ts rest : List Token} {r : Except ReadError Answer}
    (h : entry.read ts = (r, rest)) (hr : isExpression r = true) : rest.length < ts.length := by
  obtain _ | answer := r
  · nomatch hr
  cases entry with
  | expression =>
    obtain ⟨e, mid, he, heq⟩ := andThen_eq_ok_iff.1 h
    obtain ⟨-, rfl⟩ := Prod.mk.inj heq
    exact resume_length_lt he
  | single =>
    obtain ⟨e, mid, hsingle, heq⟩ := andThen_eq_ok_iff.1 h
    obtain ⟨-, rfl⟩ := Prod.mk.inj heq
    rw [singleExpression_eq_andThen] at hsingle
    obtain ⟨e', mid', he, hend⟩ := andThen_eq_ok_iff.1 hsingle
    have hmid : mid' = mid := (requireEnd_snd e' mid').symm.trans (congrArg Prod.snd hend)
    exact hmid ▸ resume_length_lt he
  | program =>
    obtain ⟨ss, mid, -, heq⟩ := andThen_eq_ok_iff.1 h
    cases heq
    nomatch hr

/-- Of all calls no more hand out an expression than there are tokens before the cursor. -/
theorem Calls.countP_le {log : List (Entry × Except ReadError Answer)} {n : Nat}
    (h : Calls tokens log n) : log.countP (fun call => isExpression call.2) ≤ n := by
  induction h with
  | nil => exact Nat.le_refl _
  | @call log n m r entry h hruns ih =>
    obtain ⟨hle, hend, hread⟩ := hruns.read_eq h.le_firstEnd
    by_cases hr : isExpression r = true
    · have hlt := Entry.read_length_lt hread hr
      rw [List.length_drop, List.length_drop] at hlt
      simp only [List.countP_cons, if_pos hr]
      omega
    · simp only [List.countP_cons, if_neg hr]
      omega

/-! ## Tokens that do not matter -/

/-- Two looks that show the same token, or both an end of the input. -/
inductive LooksAlike : Option Token → Option Token → Prop
  | same (t : Token) : LooksAlike (some t) (some t)
  | ends {t u : Token} (ht : t.kind = .endOfInput) (hu : u.kind = .endOfInput) :
      LooksAlike (some t) (some u)

/-- A move takes no more from the end of the input than that it is one, and looks at the second
token only behind an opening parenthesis. -/
theorem move_congr {look look' : Nat → Option Token} (h : LooksAlike (look 0) (look' 0))
    (hopen : ∀ t, look 0 = some t → t.kind = .leftParen → LooksAlike (look 1) (look' 1))
    (control : Control) : control.move look = control.move look' := by
  generalize h0 : look 0 = a at h hopen
  generalize h0' : look' 0 = b at h
  cases h with
  | same t =>
    -- The tokens at the cursor are the same, so only the second look may differ.
    cases control with
    | statements done =>
      simp only [Control.move, h0, h0', Option.bind_some]
      cases ht : t.kind with
      | leftParen =>
        have halike := hopen t rfl ht
        generalize look 1 = a' at halike
        generalize look' 1 = b' at halike
        cases halike with
        | same u => rfl
        | ends ht hu => simp only [Option.map_some, ht, hu]
      | _ => rfl
    | finished e purpose => cases purpose <;> simp only [Control.move, h0, h0']
    | _ => simp only [Control.move, h0, h0']
  | ends ht hu =>
    -- Whatever is to be done, only the kind of the token counts.
    cases control with
    | reading s purpose =>
      simp only [Control.move, h0, h0', Option.map_some, step_endOfInput ht, step_endOfInput hu]
    | finished e purpose =>
      cases purpose <;> simp only [Control.move, h0, h0', Option.map_some, ht, hu, if_true]
    | _ => simp only [Control.move, h0, h0', Option.map_some, Option.bind_some, ht, hu]

/-- The tokens before the first end of the input are the same. -/
def SameBeforeEnd (tokens tokens' : List Token) : Prop :=
  tokens.take (firstEnd tokens) = tokens'.take (firstEnd tokens')

/-- The first end of the input stands at the same index in both lists. -/
theorem SameBeforeEnd.firstEnd_eq (h : SameBeforeEnd tokens tokens') :
    firstEnd tokens = firstEnd tokens' := by
  have hlength := congrArg List.length h
  rwa [List.length_take_of_le (firstEnd_le_length tokens),
    List.length_take_of_le (firstEnd_le_length tokens')] at hlength

/-- Up to the first end of the input, looks at both lists show the same. -/
theorem SameBeforeEnd.looksAlike (h : SameBeforeEnd tokens tokens') (hi : i ≤ firstEnd tokens) :
    LooksAlike (sealed tokens)[i]? (sealed tokens')[i]? := by
  rcases tokenAt hi with @⟨t, hlt, hkind, hlook, hdrop⟩ | ⟨heq, hkind, hlook, -⟩
  · -- Before the end the two tokens are the same member of the common part.
    rcases tokenAt (h.firstEnd_eq ▸ hi) with @⟨u, hlt', -, hlook', hdrop'⟩ | ⟨heq', -⟩
    · have htake : tokens[i]? = tokens'[i]? := by
        rw [← List.getElem?_take_of_lt hlt, h, List.getElem?_take_of_lt hlt']
      have ht : tokens[i]? = some t := by rw [← List.head?_drop, hdrop, List.head?_cons]
      have hu : tokens'[i]? = some u := by rw [← List.head?_drop, hdrop', List.head?_cons]
      obtain rfl := Option.some.inj (ht.symm.trans (htake.trans hu))
      rw [hlook, hlook']
      exact .same t
    · exact absurd hlt (by rw [h.firstEnd_eq]; omega)
  · -- At the end both are ends of the input, but they may differ in place and text.
    rcases tokenAt (h.firstEnd_eq ▸ hi) with ⟨hlt', -⟩ | ⟨-, hkind', hlook', -⟩
    · exact absurd hlt' (by rw [← h.firstEnd_eq]; omega)
    · rw [hlook, hlook']
      exact .ends hkind hkind'

/-- The same move is made over both lists. -/
theorem SameBeforeEnd.next_eq (h : SameBeforeEnd tokens tokens') {c : Cursor}
    (hc : c.index ≤ firstEnd tokens) : c.next tokens = c.next tokens' := by
  refine move_congr (h.looksAlike (i := c.index + 0) hc) ?_ c.control
  intro t ht hopen
  refine h.looksAlike ?_
  -- The second look comes behind a parenthesis, so it is not past the end either.
  rcases tokenAt hc with ⟨hlt, -⟩ | ⟨-, hkind, hlook, -⟩
  · exact hlt
  · obtain rfl := Option.some.inj (hlook.symm.trans ht)
    nomatch hkind.symm.trans hopen

/-- Every run over the one list is a run over the other. -/
theorem SameBeforeEnd.runs (h : SameBeforeEnd tokens tokens') {c : Cursor}
    {r : Except ReadError Answer} {n : Nat} (hruns : Runs tokens c r n)
    (hc : c.index ≤ firstEnd tokens) : Runs tokens' c r n := by
  induction hruns with
  | stop hnext => exact .stop (h.next_eq hc ▸ hnext)
  | move hmove _ ih =>
    have hend := (hmove.follows hc).2.1
    obtain ⟨used, hnext, hindex⟩ := hmove
    exact .move ⟨used, h.next_eq hc ▸ hnext, hindex⟩ (ih hend)

/-- So is every sequence of calls. -/
theorem SameBeforeEnd.calls (h : SameBeforeEnd tokens tokens')
    {log : List (Entry × Except ReadError Answer)} {n : Nat} (hcalls : Calls tokens log n) :
    Calls tokens' log n := by
  induction hcalls with
  | nil => exact .nil
  | call entry hcalls hruns ih => exact .call entry ih (h.runs hruns hcalls.le_firstEnd)

/-- A successful reading takes the cursor on, and in every other list of tokens that is the same up
to the place where it ends it has the same value and ends at the same place. -/
def IsLocal (read : List Token → Reading α) : Prop :=
  ∀ (tokens : List Token) (n : Nat) (a : α) (rest : List Token),
    read (tokens.drop n) = (.ok a, rest) →
      ∃ m, n < m ∧ m ≤ tokens.length ∧ rest = tokens.drop m
        ∧ ∀ tokens' : List Token, tokens'.take m = tokens.take m →
          read (tokens'.drop n) = (.ok a, tokens'.drop m)

/-- A reading is local if it always takes a first part of the tokens, and the same part with any
others after it. -/
theorem isLocal_of_append {read : List Token → Reading α}
    (h : ∀ ts a rest, read ts = (.ok a, rest) → ∃ used, 0 < used.length ∧ ts = used ++ rest
      ∧ ∀ rest', read (used ++ rest') = (.ok a, rest')) : IsLocal read := by
  intro tokens n a rest hread
  obtain ⟨used, hpos, hdrop, hused⟩ := h _ a rest hread
  have hlength := congrArg List.length hdrop
  rw [List.length_drop, List.length_append] at hlength
  refine ⟨n + used.length, by omega, by omega, ?_, ?_⟩
  · rw [← List.drop_drop, hdrop, List.drop_left]
  · intro tokens' htake
    -- The other list begins with the same part.
    have hfront : (tokens'.drop n).take used.length = used := by
      rw [List.take_drop, htake, ← List.take_drop, hdrop, List.take_left]
    rw [← List.take_append_drop used.length (tokens'.drop n), hfront, List.drop_drop]
    exact hused _

/-- The tokens of an expression decide what it is and where it ends. -/
theorem isLocal_expression : IsLocal expression := by
  refine isLocal_of_append fun ts e rest h => ?_
  obtain ⟨used, rfl, hderives⟩ := expression_eq_ok_iff.1 h
  exact ⟨used, hderives.length_pos, rfl, hderives.expression_eq⟩

/-- So do those of a statement. -/
theorem isLocal_statement : IsLocal statement := by
  refine isLocal_of_append fun ts s rest h => ?_
  obtain ⟨used, rfl, hderives⟩ := statement_eq_ok_iff.1 h
  refine ⟨used, ?_, rfl, hderives.statement_eq⟩
  cases hderives <;> exact Nat.succ_pos _

/-! ## Expressions one after another -/

/-- An expression that is read brings the first end of the input nearer. -/
theorem firstEnd_lt_of_resume {s : Partial} {ts rest : List Token} {e : Expr}
    (h : resume s ts = (.ok e, rest)) : firstEnd rest < firstEnd ts := by
  induction ts generalizing s with
  | nil => nomatch h
  | cons t ts ih =>
    -- No token that is taken is the end of the input, so each one counts.
    have hfirst (ht : t.kind ≠ .endOfInput) : firstEnd (t :: ts) = firstEnd ts + 1 := by
      rw [firstEnd, List.findIdx_cons, beq_eq_false_iff_ne.2 ht]
      rfl
    have hkind : ∀ next, step s t = .ok next → t.kind ≠ .endOfInput := by
      intro next hnext ht
      rw [step_endOfInput ht] at hnext
      nomatch hnext
    rw [resume] at h
    split at h
    · cases h
    · next e' hstep =>
      cases h
      rw [hfirst (hkind _ hstep)]
      exact Nat.lt_succ_self _
    · next s' hstep =>
      rw [hfirst (hkind _ hstep)]
      exact Nat.lt_succ_of_lt (ih h)

/-- There are no more expressions than tokens before the first end of the input. -/
theorem length_expressions_le (tokens : List Token) :
    (expressions tokens).1.length ≤ firstEnd tokens := by
  fun_induction expressions tokens with
  | case1 ts e rest h hlt es error hrest ih =>
    rw [hrest] at ih
    exact Nat.lt_of_le_of_lt ih (firstEnd_lt_of_resume h)
  | case2 => exact Nat.zero_le _

/-- The reader goes on from token to token and does not pass the first end of the input, wherever
that stands in the list and however the calls before have ended. So no look is past the end of the
list, every call comes to a stop, and what comes after the first end of the input is not seen. An
expression or a statement that has been read takes the cursor on, and depends on the tokens it has
taken only, and so no more expressions can be read than there are tokens before the end. -/
theorem cursor_stays_within_input (tokens : List Token) :
    (∀ log n, Calls tokens log n →
      n ≤ firstEnd tokens
      ∧ log.countP (fun call => isExpression call.2) ≤ n
      ∧ ∀ entry : Entry,
        (∀ c, Relation.ReflTransGen (Moves tokens) ⟨entry.start, n⟩ c →
          n ≤ c.index ∧ c.index ≤ firstEnd tokens ∧ (c.next tokens).isSome = true
          ∧ ∀ c', Moves tokens c c' → c.index ≤ c'.index)
        ∧ ∃ r m, n ≤ m ∧ m ≤ firstEnd tokens
          ∧ (∀ r' m', Runs tokens ⟨entry.start, n⟩ r' m' ↔ r' = r ∧ m' = m)
          ∧ entry.read (tokens.drop n) = (r, tokens.drop m))
    ∧ (∀ tokens', SameBeforeEnd tokens tokens' →
      ∀ log n, Calls tokens log n ↔ Calls tokens' log n)
    ∧ IsLocal expression
    ∧ IsLocal statement
    ∧ (expressions tokens).1.length ≤ firstEnd tokens := by
  refine ⟨?_, fun tokens' h log n => ⟨h.calls, SameBeforeEnd.calls h.symm⟩, isLocal_expression,
    isLocal_statement, length_expressions_le tokens⟩
  intro log n hcalls
  have hn := hcalls.le_firstEnd
  refine ⟨hn, hcalls.countP_le, fun entry => ⟨?_, ?_⟩⟩
  · intro c hreaches
    obtain ⟨hle, hend⟩ := index_le_of_reaches hreaches hn
    obtain ⟨m, hnext, -⟩ := Cursor.goesOn hend
    exact ⟨hle, hend, Option.isSome_iff_exists.2 ⟨m, hnext⟩, fun c' hmove => (hmove.follows hend).1⟩
  · obtain ⟨r, m, hruns⟩ := exists_runs (c := ⟨entry.start, n⟩) hn
    obtain ⟨hle, hend, hread⟩ := hruns.read_eq hn
    refine ⟨r, m, hle, hend, fun r' m' => ⟨fun h => hruns.unique h hn, ?_⟩, hread⟩
    rintro ⟨rfl, rfl⟩
    exact hruns

/-- A list with an end of the input in the middle. -/
def endBetweenNames : List Token :=
  [⟨.identifier "a", "a", ⟨1, 1⟩⟩, ⟨.endOfInput, "", ⟨1, 2⟩⟩, ⟨.identifier "b", "b", ⟨1, 3⟩⟩]

/-- The name before the end is read, and the next call fails, with or without what comes
behind the end. -/
theorem cursor_stays_within_input_endBetweenNames :
    Calls endBetweenNames [(.expression, .error .unexpectedEnd),
      (.expression, .ok (.expression (.var "a")))] 1
    ∧ Calls (endBetweenNames.take 1) [(.expression, .error .unexpectedEnd),
      (.expression, .ok (.expression (.var "a")))] 1 := by
  have hfirst : Runs endBetweenNames ⟨Entry.expression.start, 0⟩
      (.ok (.expression (.var "a"))) 1 :=
    .move (⟨1, rfl, rfl⟩ : Moves _ _ ⟨.finished (.var "a") .value, 1⟩) (.stop rfl)
  have hsecond : Runs endBetweenNames ⟨Entry.expression.start, 1⟩ (.error .unexpectedEnd) 1 :=
    .stop rfl
  have hcalls := (Calls.nil.call .expression hfirst).call .expression hsecond
  have hsame : SameBeforeEnd endBetweenNames (endBetweenNames.take 1) := rfl
  exact ⟨hcalls, ((cursor_stays_within_input endBetweenNames).2.1 _ hsame _ _).1 hcalls⟩

end ObjectLisp.Reader
