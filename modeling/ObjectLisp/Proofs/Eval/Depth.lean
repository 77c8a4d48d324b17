import ObjectLisp.Eval

/-!
# Evaluation within a larger depth

A larger depth never changes an answer that was reached. So it makes sense to say that an evaluation
ends with a result, whatever the depth: `Evaluates` says that some depth suffices, and there is at
most one result.
-/

namespace ObjectLisp

variable {α β : Type}

/-! ## Approximation -/

namespace Action

/-- Wherever `x` does not give up, `y` does the same. -/
def Approximates (x y : Action α) : Prop := ∀ s, x s = .outOfFuel ∨ x s = y s

theorem Approximates.refl (x : Action α) : x.Approximates x := fun _ => .inr rfl

theorem Approximates.trans {x y z : Action α} (h : x.Approximates y) (h' : y.Approximates z) :
    x.Approximates z := by
  intro s
  rcases h s with hx | hx
  · exact .inl hx
  · rw [hx]
    exact h' s

/-- A sequence is approximated step by step. -/
theorem Approximates.bind {x y : Action α} {f g : α → Action β} (h : x.Approximates y)
    (hf : ∀ a, (f a).Approximates (g a)) : (x >>= f).Approximates (y >>= g) := by
  intro s
  show andThen x f s = .outOfFuel ∨ andThen x f s = andThen y g s
  unfold andThen
  rcases h s with hx | hx
  · exact .inl (by rw [hx])
  · rw [hx]
    cases y s with
    | value a s' => exact hf a s'
    | error e s' => exact .inr rfl
    | outOfFuel => exact .inl rfl

end Action

open ObjectLisp.Action

/-- The evaluation of a list is approximated element by element. -/
theorem evaluateAll_approximates {run run' : Expr → Action Value}
    (h : ∀ e, (run e).Approximates (run' e)) (es : List Expr) :
    (evaluateAll run es).Approximates (evaluateAll run' es) := by
  induction es with
  | nil => exact .refl _
  | cons e rest ih =>
    rw [evaluateAll, evaluateAll]
    exact (h e).bind fun v => ih.bind fun vs => .refl _

/-- Only the body of a closure is evaluated in a call. -/
theorem applyWith_approximates (host : Host) {run run' : FrameId → Expr → Action Value}
    (h : ∀ scope e, (run scope e).Approximates (run' scope e)) (callee : Value)
    (args : List Value) :
    (applyWith host run callee args).Approximates (applyWith host run' callee args) := by
  cases callee with
  | closure id =>
    refine (Approximates.refl _).bind fun c => ?_
    by_cases hlength : c.params.length ≠ args.length
    · rw [if_pos hlength, if_pos hlength]
      exact .refl _
    · rw [if_neg hlength, if_neg hlength]
      exact (Approximates.refl _).bind fun frame => h frame c.body
  | number | bool | null | keyword | primitive | object => exact .refl _

/-- One more level of depth changes no answer. -/
theorem evaluate_approximates_succ (host : Host) (depth : Nat) (scope : FrameId) (e : Expr) :
    (evaluate host depth scope e).Approximates (evaluate host (depth + 1) scope e) := by
  -- The induction is on the depth and not on the expression, since a call evaluates the body of a
  -- closure, which is no part of the application.
  induction depth generalizing scope e with
  | zero =>
    intro s
    exact .inl rfl
  | succ depth ih =>
    cases e with
    | var | number | bool | null | keyword | value | lambda => exact .refl _
    | application head args =>
      rw [evaluate, evaluate]
      refine (ih scope head).bind fun callee => ?_
      refine (evaluateAll_approximates (ih scope) args).bind fun values => ?_
      exact applyWith_approximates host ih callee values
    | conditional guard consequent alternative =>
      rw [evaluate, evaluate]
      refine (ih scope guard).bind fun v => ?_
      cases v with
      | bool b =>
        cases b with
        | true => exact ih scope consequent
        | false => exact ih scope alternative
      | number | null | keyword | closure | primitive | object => exact .refl _

/-- More depth changes no answer. -/
theorem evaluate_approximates (host : Host) {depth depth' : Nat} (h : depth ≤ depth')
    (scope : FrameId) (e : Expr) :
    (evaluate host depth scope e).Approximates (evaluate host depth' scope e) := by
  induction h with
  | refl => exact .refl _
  | step _ ih => exact ih.trans (evaluate_approximates_succ host _ scope e)

/-! ## Results -/

/-- What the outcome of an evaluation shows: the text of the value, or the error. -/
def Outcome.result? : Outcome Value → Option (Except RuntimeError String)
  | .value v s => some (.ok (s.text v))
  | .error e _ => some (.error e)
  | .outOfFuel => none

/-- The evaluation of an expression ends, with the given result. -/
def Evaluates (host : Host) (scope : FrameId) (e : Expr) (s : Store)
    (r : Except RuntimeError String) : Prop :=
  ∃ depth, (evaluate host depth scope e s).result? = some r

/-- A result stays the same within every larger depth. -/
theorem result?_evaluate_of_le {host : Host} {depth depth' : Nat} (h : depth ≤ depth')
    {scope : FrameId} {e : Expr} {s : Store} {r : Except RuntimeError String}
    (hr : (evaluate host depth scope e s).result? = some r) :
    (evaluate host depth' scope e s).result? = some r := by
  rcases evaluate_approximates host h scope e s with hout | heq
  · rw [hout] at hr
    nomatch hr
  · rwa [← heq]

/-- An evaluation ends with one result only. -/
theorem Evaluates.unique {host : Host} {scope : FrameId} {e : Expr} {s : Store}
    {r r' : Except RuntimeError String} (h : Evaluates host scope e s r)
    (h' : Evaluates host scope e s r') : r = r' := by
  obtain ⟨depth, hr⟩ := h
  obtain ⟨depth', hr'⟩ := h'
  have hmax := result?_evaluate_of_le (Nat.le_max_left depth depth') hr
  have hmax' := result?_evaluate_of_le (Nat.le_max_right depth depth') hr'
  exact Option.some.inj (hmax.symm.trans hmax')

end ObjectLisp
