import ObjectLisp.Proofs.Dict
import ObjectLisp.Proofs.Expr

/-!
# Free names and substitution

`Expr.free` lists the names whose bindings an expression asks its scope for, and `Expr.values` the
values that it already holds. `Expr.subst` puts values in the place of free names; under a lambda
the parameters are left alone, and since values have no free names of their own, none is ever
captured.
-/

namespace ObjectLisp

/-- Values to be put in the place of names. The first one of a name counts. -/
abbrev Substitution : Type := List (String × Value)

/-- A substitution that leaves some names alone. -/
def Substitution.hide (names : List String) (σ : Substitution) : Substitution :=
  σ.filter fun e => decide (e.1 ∉ names)

/-- Hidden names have no value, and all others have the one they had. -/
theorem Substitution.lookup_hide (names : List String) (σ : Substitution) (x : String) :
    (σ.hide names).lookup x = if x ∈ names then none else σ.lookup x := by
  induction σ with
  | nil => simp [hide]
  | cons e σ ih =>
    obtain ⟨k, v⟩ := e
    have hcons : Substitution.hide names ((k, v) :: σ)
        = if k ∈ names then hide names σ else (k, v) :: hide names σ := by
      by_cases hk : k ∈ names <;> simp [hide, hk]
    rw [hcons, Dict.lookup_cons]
    by_cases hx : x = k
    · subst hx
      by_cases hk : x ∈ names
      · rw [if_pos hk, ih]
        simp [hk]
      · rw [if_neg hk, Dict.lookup_cons]
        simp [hk]
    · by_cases hk : k ∈ names
      · rw [if_pos hk, ih, if_neg hx]
      · rw [if_neg hk, Dict.lookup_cons, if_neg hx, if_neg hx, ih]

namespace Expr

/-! ## Held values -/

mutual

/-- The values that an expression holds. -/
def values : Expr → List Value
  | lambda _ body => body.values
  | application head args => head.values ++ allValues args
  | conditional guard consequent alternative =>
    guard.values ++ consequent.values ++ alternative.values
  | value v => [v]
  | _ => []

/-- The values that some expressions hold. -/
def allValues : List Expr → List Value
  | [] => []
  | e :: rest => e.values ++ allValues rest

end

/-- The values of several expressions are those of each. -/
theorem mem_allValues {v : Value} {es : List Expr} : v ∈ allValues es ↔ ∃ e ∈ es, v ∈ e.values := by
  induction es with
  | nil => simp [allValues]
  | cons e rest ih => simp [allValues, ih]

/-! ## Free names -/

mutual

/-- The names that occur in an expression outside of lambdas that bind them. -/
def free : Expr → List String
  | var name => [name]
  | lambda params body => body.free.filter fun x => decide (x ∉ params)
  | application head args => head.free ++ allFree args
  | conditional guard consequent alternative => guard.free ++ consequent.free ++ alternative.free
  | _ => []

/-- The free names of some expressions. -/
def allFree : List Expr → List String
  | [] => []
  | e :: rest => e.free ++ allFree rest

end

/-- The free names of several expressions are those of each. -/
theorem mem_allFree {x : String} {es : List Expr} : x ∈ allFree es ↔ ∃ e ∈ es, x ∈ e.free := by
  induction es with
  | nil => simp [allFree]
  | cons e rest ih => simp [allFree, ih]

/-! ## Substitution -/

mutual

/-- Put values in the place of free names. -/
def subst (σ : Substitution) : Expr → Expr
  | var name =>
    match σ.lookup name with
    | some v => value v
    | none => var name
  | lambda params body => lambda params (body.subst (σ.hide params))
  | application head args => application (head.subst σ) (substAll σ args)
  | conditional guard consequent alternative =>
    conditional (guard.subst σ) (consequent.subst σ) (alternative.subst σ)
  | e => e

/-- Put values in the place of the free names of some expressions. -/
def substAll (σ : Substitution) : List Expr → List Expr
  | [] => []
  | e :: rest => e.subst σ :: substAll σ rest

end

/-- Several expressions are substituted one by one. -/
theorem substAll_eq_map (σ : Substitution) (es : List Expr) : substAll σ es = es.map (subst σ) := by
  induction es with
  | nil => rfl
  | cons e rest ih => rw [substAll, ih, List.map_cons]

/-- Without values nothing is replaced. -/
@[simp]
theorem subst_nil (e : Expr) : e.subst [] = e := by
  induction e with
  | var | number | bool | null | keyword | value => rfl
  | lambda params body ih =>
    rw [subst]
    exact congrArg (lambda params) ih
  | application head args ihHead ihArgs =>
    rw [subst, ihHead, substAll_eq_map, List.map_congr_left ihArgs, List.map_id']
  | conditional guard consequent alternative ihGuard ihConsequent ihAlternative =>
    rw [subst, ihGuard, ihConsequent, ihAlternative]

/-- Nothing is substituted in them by nothing. -/
@[simp]
theorem substAll_nil (es : List Expr) : substAll [] es = es := by
  rw [substAll_eq_map, List.map_congr_left fun e _ => subst_nil e, List.map_id']

end Expr

end ObjectLisp
