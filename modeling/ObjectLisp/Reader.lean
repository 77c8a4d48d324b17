import ObjectLisp.Expr
import ObjectLisp.Token.Lexer

/-!
# From tokens to expressions and statements

An expression is read one token at a time, with an explicit stack of the forms that are still
open. Every enclosing form waits for one of its parts, so the stack is a list of `Slot`s, and the
`Mode` says what the next token has to be. `step` is the whole grammar of expressions: it either
finishes the expression or goes on with another mode and stack, and a refused token leaves
everything as it was.

Reading returns the tokens that were not used along with its result, also when it fails, and then
the first of them is the one that was refused. (An expression in the place of a statement is
refused after it has been read.) The end of the input is the end of the list or an end-of-input
token, whichever comes first, and reading never goes past it.
-/

namespace ObjectLisp.Reader

/-! ## Special names -/

/-- The names that begin a definition. -/
def defineNames : List String := ["define", "definieren"]

/-- The names that begin a print statement. -/
def printNames : List String := ["print", "druck"]

/-- The names that begin a conditional. -/
def conditionalNames : List String := ["if", "ob"]

/-! ## Expressions -/

/-- A form whose next part is being read. The parts of an application are held in reverse. -/
inductive Slot where
  | form
  | application (head : Expr) (args : List Expr)
  | body (params : List String)
  | guard
  | consequent (guard : Expr)
  | alternative (guard consequent : Expr)

/-- What the next token has to be. Parameters are held in reverse. -/
inductive Mode where
  | expression
  | parameterList
  | parameters (names : List String)
  | closing (e : Expr)
  | keyword (colon : Position)

/-- What has been read of an unfinished expression. -/
structure Partial where
  mode : Mode
  stack : List Slot

/-- Nothing has been read. -/
def Partial.start : Partial := ⟨.expression, []⟩

/-- The outcome of one token. -/
inductive Progress where
  | done (e : Expr)
  | more (s : Partial)

/-- Put a finished expression in its place in the innermost open form. -/
def deliver (e : Expr) : List Slot → Progress
  | [] => .done e
  | .form :: rest => .more ⟨.expression, .application e [] :: rest⟩
  | .application head args :: rest => .more ⟨.expression, .application head (e :: args) :: rest⟩
  | .body params :: rest => .more ⟨.closing (.lambda params e), rest⟩
  | .guard :: rest => .more ⟨.expression, .consequent e :: rest⟩
  | .consequent guard :: rest => .more ⟨.expression, .alternative guard e :: rest⟩
  | .alternative guard consequent :: rest =>
    .more ⟨.closing (.conditional guard consequent e), rest⟩

/-- The fault at a token that is not what was expected. -/
def mismatch (what : Expectation) (t : Token) : ReadError :=
  .fault t.position (.expected what t.kind)

/-- A name at the head of a form, which may make the form a special one. -/
def headName (name : String) (t : Token) (rest : List Slot) : Except ReadError Progress :=
  if name = "lambda" then .ok (.more ⟨.parameterList, rest⟩)
  else if name ∈ conditionalNames then .ok (.more ⟨.expression, .guard :: rest⟩)
  else if name ∈ defineNames ∨ name ∈ printNames then
    .error (.fault t.position (.misplacedStatement name))
  else .ok (deliver (.var name) (.form :: rest))

/-- A closing parenthesis where an expression may begin. It ends an application and nothing else. -/
def closeForm (t : Token) : List Slot → Except ReadError Progress
  | .form :: _ => .error (.fault t.position .emptyApplication)
  | .application head args :: rest => .ok (deliver (.application head args.reverse) rest)
  | .alternative .. :: _ => .error (mismatch .elseBranch t)
  | _ => .error (mismatch .expression t)

/-- A token where an expression may begin. -/
def expressionToken (t : Token) (stack : List Slot) : Except ReadError Progress :=
  match t.kind with
  | .leftParen => .ok (.more ⟨.expression, .form :: stack⟩)
  | .rightParen => closeForm t stack
  | .colon => .ok (.more ⟨.keyword t.position, stack⟩)
  | .number x => .ok (deliver (.number x) stack)
  | .bool b => .ok (deliver (.bool b) stack)
  | .null => .ok (deliver .null stack)
  | .identifier name =>
    match stack with
    | .form :: rest => headName name t rest
    | _ => .ok (deliver (.var name) stack)
  | .endOfInput => .error .unexpectedEnd

/-- Whether a token stands directly after the colon at `colon`. Columns have no bound here: the
column after the colon always exists, also where a machine word could not hold it. -/
def touches (colon : Position) (t : Token) : Bool := t.position == colon.right 1

/-- A token after a colon. Any word that is no number names a keyword, by its text. -/
def keywordToken (colon : Position) (t : Token) (stack : List Slot) :
    Except ReadError Progress :=
  match t.kind with
  | .identifier _ | .bool _ | .null =>
    if touches colon t then .ok (deliver (.keyword t.lexeme) stack)
    else .error (.fault t.position .detachedKeyword)
  | .endOfInput => .error .unexpectedEnd
  | _ => .error (mismatch .keywordName t)

/-- Read one token. -/
def step (s : Partial) (t : Token) : Except ReadError Progress :=
  match s.mode with
  | .expression => expressionToken t s.stack
  | .parameterList =>
    match t.kind with
    | .leftParen => .ok (.more ⟨.parameters [], s.stack⟩)
    | .endOfInput => .error .unexpectedEnd
    | _ => .error (mismatch .leftParen t)
  | .parameters names =>
    match t.kind with
    | .identifier name => .ok (.more ⟨.parameters (name :: names), s.stack⟩)
    | .rightParen => .ok (.more ⟨.expression, .body names.reverse :: s.stack⟩)
    | .endOfInput => .error .unexpectedEnd
    | _ => .error (mismatch .parameterName t)
  | .closing e =>
    match t.kind with
    | .rightParen => .ok (deliver e s.stack)
    | .endOfInput => .error .unexpectedEnd
    | _ => .error (mismatch .rightParen t)
  | .keyword colon => keywordToken colon t s.stack

/-- A reading: the result, and the tokens from the first one that was not used. -/
abbrev Reading (α : Type) : Type := Except ReadError α × List Token

/-- Read on until the expression is finished. -/
def resume (s : Partial) : List Token → Reading Expr
  | [] => (.error .unexpectedEnd, [])
  | t :: rest =>
    match step s t with
    | .error e => (.error e, t :: rest)
    | .ok (.done e) => (.ok e, rest)
    | .ok (.more s) => resume s rest

/-- Read the expression at the front of a token list. -/
def expression (tokens : List Token) : Reading Expr := resume .start tokens

/-- A finished expression has used at least one token. -/
theorem resume_length_lt {s : Partial} {tokens rest : List Token} {e : Expr}
    (h : resume s tokens = (.ok e, rest)) : rest.length < tokens.length := by
  induction tokens generalizing s with
  | nil => simp [resume] at h
  | cons t ts ih =>
    simp only [resume] at h
    split at h
    · simp at h
    · obtain ⟨_, rfl⟩ := Prod.mk.inj h
      exact Nat.lt_succ_self _
    · exact Nat.lt_succ_of_lt (ih h)

/-- Whether a token list has ended. -/
def atEnd : List Token → Bool
  | [] => true
  | t :: _ => t.kind == .endOfInput

/-- The token list has to have ended after the expression. -/
def requireEnd (e : Expr) : List Token → Reading Expr
  | [] => (.ok e, [])
  | t :: rest =>
    if t.kind = .endOfInput then (.ok e, t :: rest)
    else (.error (mismatch .endOfInput t), t :: rest)

/-- Read a token list that holds one expression and nothing else. -/
def singleExpression (tokens : List Token) : Reading Expr :=
  match expression tokens with
  | (.ok e, rest) => requireEnd e rest
  | (.error e, rest) => (.error e, rest)

/-- Read expressions one after another up to the first failure, which there always is. -/
def expressions (tokens : List Token) : List Expr × ReadError :=
  match h : expression tokens with
  | (.ok e, rest) =>
    have : rest.length < tokens.length := resume_length_lt h
    let (es, error) := expressions rest
    (e :: es, error)
  | (.error e, _) => ([], e)
termination_by tokens.length

/-! ## Statements -/

/-- The closing parenthesis of a statement. -/
def closeStatement (s : Statement) : List Token → Reading Statement
  | [] => (.error .unexpectedEnd, [])
  | t :: rest =>
    match t.kind with
    | .rightParen => (.ok s, rest)
    | .endOfInput => (.error .unexpectedEnd, t :: rest)
    | _ => (.error (mismatch .rightParen t), t :: rest)

/-- An expression and the end of the statement made of it. -/
def closedBy (make : Expr → Statement) (tokens : List Token) : Reading Statement :=
  match expression tokens with
  | (.ok e, rest) => closeStatement (make e) rest
  | (.error e, rest) => (.error e, rest)

/-- A definition after its first name: the name to define, its value and the end. -/
def definition : List Token → Reading Statement
  | [] => (.error .unexpectedEnd, [])
  | t :: rest =>
    match t.kind with
    | .identifier name => closedBy (.define name) rest
    | .endOfInput => (.error .unexpectedEnd, t :: rest)
    | _ => (.error (mismatch .nameToDefine t), t :: rest)

/-- An expression where a statement has to stand. -/
def bareExpression (tokens : List Token) : Reading Statement :=
  match expression tokens with
  | (.ok e, rest) => (.error (.notAStatement e.sourceText), rest)
  | (.error e, rest) => (.error e, rest)

/-- Read the statement at the front of a token list. -/
def statement : List Token → Reading Statement
  | ⟨.leftParen, lexeme, p⟩ :: ⟨.identifier name, lexeme', p'⟩ :: rest =>
    if name ∈ defineNames then definition rest
    else if name ∈ printNames then closedBy .print rest
    else bareExpression (⟨.leftParen, lexeme, p⟩ :: ⟨.identifier name, lexeme', p'⟩ :: rest)
  | tokens => bareExpression tokens

/-- A statement made of an expression has used at least one token. -/
theorem closedBy_length_lt {make : Expr → Statement} {tokens rest : List Token} {s : Statement}
    (h : closedBy make tokens = (.ok s, rest)) : rest.length < tokens.length := by
  simp only [closedBy] at h
  split at h
  · next e mid he =>
    have hmid : mid.length < tokens.length := resume_length_lt he
    cases mid with
    | nil => simp [closeStatement] at h
    | cons t ts =>
      simp only [closeStatement] at h
      split at h
      · obtain ⟨_, rfl⟩ := Prod.mk.inj h
        simp only [List.length_cons] at hmid
        omega
      · simp at h
      · simp at h
  · simp at h

/-- A statement has used at least one token. -/
theorem statement_length_lt {tokens rest : List Token} {s : Statement}
    (h : statement tokens = (.ok s, rest)) : rest.length < tokens.length := by
  have bare {ts : List Token} (hb : bareExpression ts = (.ok s, rest)) : False := by
    simp only [bareExpression] at hb
    split at hb <;> simp at hb
  unfold statement at h
  split at h
  · next ts =>
    split at h
    · cases ts with
      | nil => simp [definition] at h
      | cons t ts =>
        simp only [definition] at h
        split at h
        · have := closedBy_length_lt h
          simp only [List.length_cons]
          omega
        · simp at h
        · simp at h
    · split at h
      · have := closedBy_length_lt h
        simp only [List.length_cons]
        omega
      · exact (bare h).elim
  · exact (bare h).elim

/-- Read statements up to the end of the token list. -/
def statements (tokens : List Token) : Reading (List Statement) :=
  if atEnd tokens then (.ok [], tokens)
  else
    match h : statement tokens with
    | (.error e, rest) => (.error e, rest)
    | (.ok s, rest) =>
      have : rest.length < tokens.length := statement_length_lt h
      match statements rest with
      | (.ok ss, rest') => (.ok (s :: ss), rest')
      | (.error e, rest') => (.error e, rest')
termination_by tokens.length

/-! ## Sources -/

/-- Read a token list as a program. -/
def programOfTokens (tokens : List Token) : Except ReadError Program :=
  (statements tokens).1.map Program.mk

/-- Read a token list as one expression. -/
def expressionOfTokens (tokens : List Token) : Except ReadError Expr :=
  (singleExpression tokens).1

/-- Read a source as a program. -/
def readProgram (source : String) : Except ReadError Program := do
  programOfTokens (← Lexer.tokenize source)

/-- Read a source as one expression. -/
def readExpression (source : String) : Except ReadError Expr := do
  expressionOfTokens (← Lexer.tokenize source)

end ObjectLisp.Reader
