import ObjectLisp.Primitive.Call

/-!
# Evaluation

`evaluate` gives the value of an expression in a scope, and `execute` runs statements in order. In
an application the head is evaluated first, then the arguments from left to right, and then the
value of the head decides: a closure is called in a new frame inside the scope it was made in, a
primitive is called as it is, and an object makes a new object of its arguments.

Programs need not end, so evaluation takes a bound on its depth, the length of the longest chain of
nested evaluations. A larger bound never changes an answer that was reached.
-/

namespace ObjectLisp

/-! ## Application -/

/-- Apply a value to arguments, given how to evaluate the body of a closure. -/
def applyWith (host : Host) (run : FrameId → Expr → Action Value) (callee : Value)
    (args : List Value) : Action Value :=
  match callee with
  | .closure id => do
    let c ← .read (·.closure id)
    if c.params.length ≠ args.length then
      .failWith fun s => .arityMismatch (s.text callee) c.params.length args.length
    else
      let frame ← .perform (·.extend c.scope c.params args)
      run frame c.body
  | .primitive p => p.call host args
  | .object _ => do
    Primitive.new (← .readOrFail fun s => Object.ofPairs s.text args)
  | _ => .failWith fun s => .notCallable (s.text callee)

/-- Evaluate expressions from left to right. -/
def evaluateAll (run : Expr → Action Value) : List Expr → Action (List Value)
  | [] => pure []
  | e :: rest => do
    let v ← run e
    let vs ← evaluateAll run rest
    return v :: vs

/-! ## Expressions -/

/-- The value of an expression in a scope, within a depth. -/
def evaluate (host : Host) : (depth : Nat) → (scope : FrameId) → Expr → Action Value
  | 0, _, _ => .exhausted
  | depth + 1, scope, e =>
    match e with
    | .var name => .readOrFail (·.get scope name)
    | .number x => pure (.number x)
    | .bool b => pure (.bool b)
    | .null => pure .null
    | .keyword name => pure (.keyword name)
    | .value v => pure v
    | .lambda params body => do
      return .closure (← .create (·.addClosure ⟨params, body, scope⟩))
    | .application head args => do
      let callee ← evaluate host depth scope head
      let values ← evaluateAll (evaluate host depth scope) args
      applyWith host (evaluate host depth) callee values
    | .conditional guard consequent alternative => do
      match ← evaluate host depth scope guard with
      | .bool true => evaluate host depth scope consequent
      | .bool false => evaluate host depth scope alternative
      | v => .failWith fun s => .guardType (s.text v)

/-- Apply a value to arguments, within a depth. -/
def apply (host : Host) (depth : Nat) (callee : Value) (args : List Value) : Action Value :=
  applyWith host (evaluate host depth) callee args

/-! ## Statements -/

/-- Run statements in order and collect the lines they print. The first failure ends the run, and
the lines before it are lost. -/
def executeAll (host : Host) (depth : Nat) (scope : FrameId) :
    List Statement → Action (List String)
  | [] => pure []
  | .define name e :: rest => do
    let v ← evaluate host depth scope e
    .perform (·.define scope name v)
    executeAll host depth scope rest
  | .print e :: rest => do
    let v ← evaluate host depth scope e
    let line ← .read (·.text v)
    let lines ← executeAll host depth scope rest
    return line :: lines

/-- Run a program. -/
def execute (host : Host) (depth : Nat) (scope : FrameId) (p : Program) : Action (List String) :=
  executeAll host depth scope p.statements

end ObjectLisp
