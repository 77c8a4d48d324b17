import ObjectLisp.Eval

/-!
# Single steps of evaluation

What the evaluation of a name, an application and a call of a closure comes to, as equations between
outcomes.
-/

namespace ObjectLisp

open ObjectLisp.Action

variable {α β : Type} {host : Host} {s : Store}

/-- A sequence that ends with a value went through a value of its first part. -/
theorem Action.bind_eq_value {x : Action α} {f : α → Action β} {s s' : Store} {b : β}
    (h : (x >>= f) s = .value b s') : ∃ a s₁, x s = .value a s₁ ∧ f a s₁ = .value b s' := by
  change andThen x f s = .value b s' at h
  unfold andThen at h
  cases hx : x s with
  | value a s₁ =>
    rw [hx] at h
    exact ⟨a, s₁, rfl, h⟩
  | error e s₁ =>
    rw [hx] at h
    nomatch h
  | outOfFuel =>
    rw [hx] at h
    nomatch h

/-- The evaluation of a name looks it up. -/
theorem evaluate_var (host : Host) (depth : Nat) (scope : FrameId) (name : String) (s : Store) :
    evaluate host (depth + 1) scope (.var name) s =
      match s.get? scope name with
      | some v => .value v s
      | none => .error (.unboundVariable name) s := by
  show readOrFail (·.get scope name) s = _
  unfold readOrFail Store.get
  dsimp only
  cases s.get? scope name <;> rfl

/-- The outcome of an application whose head and arguments have values is that of the call. -/
theorem evaluate_application {depth : Nat} {scope : FrameId} {head : Expr} {args : List Expr}
    {callee : Value} {vs : List Value} {s₁ s₂ : Store}
    (hhead : evaluate host depth scope head s = .value callee s₁)
    (hargs : evaluateAll (evaluate host depth scope) args s₁ = .value vs s₂) :
    evaluate host (depth + 1) scope (.application head args) s
      = applyWith host (evaluate host depth) callee vs s₂ := by
  show andThen _ _ s = _
  unfold andThen
  rw [hhead]
  show andThen _ _ s₁ = _
  unfold andThen
  rw [hargs]

/-- As many values as arguments. -/
theorem length_eq_of_evaluateAll {run : Expr → Action Value} {args : List Expr} {vs : List Value}
    {s₁ : Store} (h : evaluateAll run args s = .value vs s₁) : args.length = vs.length := by
  induction args generalizing s vs s₁ with
  | nil =>
    cases h
    rfl
  | cons e rest ih =>
    obtain ⟨v, t, -, h⟩ := bind_eq_value h
    obtain ⟨ws, u, hws, h⟩ := bind_eq_value h
    cases h
    rw [List.length_cons, List.length_cons, ih hws]

/-- What a call of a closure does: count the arguments, bind the parameters in a new frame, and run
the body there. -/
theorem applyWith_closure (host : Host) (run : FrameId → Expr → Action Value) (id : ClosureId)
    (args : List Value) (s : Store) :
    applyWith host run (.closure id) args s =
      if (s.closure id).params.length ≠ args.length then
        .error (.arityMismatch (s.text (.closure id)) (s.closure id).params.length args.length) s
      else
        match Store.bindParameters (s.closure id).params args with
        | .error e => .error e s
        | .ok d =>
          let (frame, s') := s.addFrame ⟨d, some (s.closure id).scope⟩
          run frame (s.closure id).body s' := by
  show (if (s.closure id).params.length ≠ args.length then _ else _ : Action Value) s = _
  by_cases hlength : (s.closure id).params.length ≠ args.length
  · rw [if_pos hlength, if_pos hlength]
    rfl
  · rw [if_neg hlength, if_neg hlength]
    show andThen (perform _) _ s = _
    unfold andThen perform Store.extend
    cases Store.bindParameters (s.closure id).params args with
    | error e => rfl
    | ok d => rfl

end ObjectLisp
