import ObjectLisp.Expr

/-!
# Induction over expressions

An application holds a list of expressions, and the induction rule has one hypothesis for all of
them.
-/

namespace ObjectLisp

/-- Induction over expressions, with one hypothesis for all arguments of an application. -/
@[elab_as_elim, induction_eliminator]
theorem Expr.induction {P : Expr → Prop} (var : ∀ name, P (.var name))
    (number : ∀ x, P (.number x)) (bool : ∀ b, P (.bool b)) (null : P .null)
    (keyword : ∀ name, P (.keyword name))
    (lambda : ∀ params body, P body → P (.lambda params body))
    (application : ∀ head args, P head → (∀ a ∈ args, P a) → P (.application head args))
    (conditional : ∀ guard consequent alternative, P guard → P consequent → P alternative →
      P (.conditional guard consequent alternative))
    (value : ∀ v, P (.value v)) (e : Expr) : P e := by
  refine Expr.rec var number bool null keyword lambda application conditional value ?_ ?_ e
  · intro a ha
    exact absurd ha List.not_mem_nil
  · intro e es he hes a ha
    rcases List.mem_cons.1 ha with rfl | ha
    · exact he
    · exact hes a ha

end ObjectLisp
