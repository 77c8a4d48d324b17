import ObjectLisp.Eval
import ObjectLisp.Proofs.Store.Extension

/-!
# Evaluation only adds to the store

No expression can change a frame, a closure or an object that is already there. `Action.Grows` says
this of an action, also for the case that it fails; evaluation and calls are built from steps that
have the property, and sequences inherit it.
-/

namespace ObjectLisp

variable {α β : Type}

/-- The store that a finished action leaves, whether it succeeded or failed. -/
def Outcome.store? : Outcome α → Option Store
  | .value _ s => some s
  | .error _ s => some s
  | .outOfFuel => none

namespace Action

/-- Wherever an action ends, it leaves an extension of the store it began in. -/
def Grows (x : Action α) : Prop := ∀ s s', (x s).store? = some s' → s.Extends s'

/-- Where a growing action ends with a value, the store is an extension of the first one. -/
theorem Grows.extends_of_value {x : Action α} (hx : x.Grows) {s s' : Store} {a : α}
    (h : x s = .value a s') : s.Extends s' :=
  hx s s' (by rw [h]; rfl)

/-! ## Single steps -/

/-- An action that only has a value grows. -/
theorem grows_pure (a : α) : (pure a : Action α).Grows := by
  intro s s' h
  cases h
  exact .refl s

/-- So does one that fails. -/
theorem grows_fail (e : RuntimeError) : (fail e : Action α).Grows := by
  intro s s' h
  cases h
  exact .refl s

/-- So does one that fails with an error read off the store. -/
theorem grows_failWith (e : Store → RuntimeError) : (failWith e : Action α).Grows := by
  intro s s' h
  cases h
  exact .refl s

/-- So does one that reads the store. -/
theorem grows_read (f : Store → α) : (read f).Grows := by
  intro s s' h
  cases h
  exact .refl s

/-- So does one that reads it or fails. -/
theorem grows_readOrFail (f : Store → Except RuntimeError α) : (readOrFail f).Grows := by
  intro s s' h
  unfold readOrFail at h
  split at h <;> cases h <;> exact .refl s

/-- An action that adds something grows if what it adds goes on top. -/
theorem grows_create {f : Store → α × Store} (hf : ∀ s : Store, s.Extends (f s).2) :
    (create f).Grows := by
  intro s s' h
  cases h
  exact hf s

/-- So does one that changes the store, if the change only adds. -/
theorem grows_perform {f : Store → Except RuntimeError α × Store}
    (hf : ∀ s : Store, s.Extends (f s).2) : (perform f).Grows := by
  intro s s' h
  have hs := hf s
  unfold perform at h
  split at h <;> next heq =>
    cases h
    rwa [heq] at hs

/-- A sequence of growing actions grows. -/
theorem Grows.bind {x : Action α} {f : α → Action β} (hx : x.Grows) (hf : ∀ a, (f a).Grows) :
    (x >>= f).Grows := by
  intro s s' h
  change (andThen x f s).store? = some s' at h
  unfold andThen at h
  have hxs := hx s
  cases hout : x s with
  | value a t =>
    rw [hout] at h hxs
    exact (hxs t rfl).trans (hf a t s' h)
  | error e t =>
    rw [hout] at h hxs
    exact hxs s' h
  | outOfFuel =>
    rw [hout] at h
    nomatch h

end Action

open ObjectLisp.Action

/-! ## Primitives -/

namespace Primitive

/-- The check of an argument leaves the store as it is. -/
theorem grows_argument {α : Type} (p : Primitive) (i : Nat) (expected : ArgumentType)
    (content : Value → Option α) (v : Value) : (p.argument i expected content v).Grows := by
  unfold argument
  split
  · exact grows_pure _
  · exact grows_failWith _

/-- A new object is added. -/
theorem grows_new (o : Object) : (new o).Grows :=
  (grows_create fun s => s.extends_addObject o).bind fun _ => grows_pure _

/-- A new animal of a kind adds its two objects. -/
theorem grows_newKindOfAnimal (fields : List (String × Value)) (furry : Bool) :
    (newKindOfAnimal fields furry).Grows :=
  (grows_create fun s => s.extends_addObject _).bind fun _ => grows_new _

/-- The dogs and cats only add objects. -/
theorem grows_kindOfAnimal (p : Primitive) (fields : Float → List (String × Value)) (a b : Value) :
    (p.kindOfAnimal fields a b).Grows :=
  (grows_argument _ _ _ _ _).bind fun x => (grows_argument _ _ _ _ _).bind fun furry =>
    grows_newKindOfAnimal (fields x) furry

/-- A call of a primitive only adds to the store. -/
theorem grows_call (host : Host) (p : Primitive) (args : List Value) :
    (p.call host args).Grows := by
  unfold call
  split
  · exact (grows_argument _ _ _ _ _).bind fun x => (grows_argument _ _ _ _ _).bind fun y =>
      grows_pure _
  · exact (grows_argument _ _ _ _ _).bind fun x => grows_pure _
  · exact (grows_argument _ _ _ _ _).bind fun id => (grows_argument _ _ _ _ _).bind fun name =>
      grows_readOrFail _
  · exact (grows_argument _ _ _ _ _).bind fun furry => grows_new _
  · exact grows_kindOfAnimal _ _ _ _
  · exact grows_kindOfAnimal _ _ _ _
  · exact (grows_readOrFail _).bind fun o => grows_new o
  · exact grows_read _
  · exact grows_fail _

end Primitive

/-! ## Evaluation -/

/-- A new frame is added at the end, and parameters that cannot be bound add none. -/
theorem Store.extends_extend (s : Store) (scope : FrameId) (params : List String)
    (values : List Value) : s.Extends (s.extend scope params values).2 := by
  unfold extend
  split
  · exact .refl s
  · exact s.extends_addFrame _

/-- Expressions evaluated one after another only add to the store, if each of them does. -/
theorem grows_evaluateAll {run : Expr → Action Value} (h : ∀ e, (run e).Grows) (es : List Expr) :
    (evaluateAll run es).Grows := by
  induction es with
  | nil => exact grows_pure []
  | cons e rest ih => exact (h e).bind fun v => ih.bind fun vs => grows_pure _

/-- A call only adds to the store, if the body of a closure does. -/
theorem grows_applyWith (host : Host) {run : FrameId → Expr → Action Value}
    (h : ∀ scope e, (run scope e).Grows) (callee : Value) (args : List Value) :
    (applyWith host run callee args).Grows := by
  cases callee with
  | closure id =>
    refine (grows_read _).bind fun c => ?_
    by_cases hlength : c.params.length ≠ args.length
    · rw [if_pos hlength]
      exact grows_failWith _
    · rw [if_neg hlength]
      exact (grows_perform fun s => s.extends_extend _ _ _).bind fun frame => h frame c.body
  | primitive p => exact p.grows_call host args
  | object id => exact (grows_readOrFail _).bind fun o => Primitive.grows_new o
  | number | bool | null | keyword => exact grows_failWith _

/-- Evaluation only adds to the store. -/
theorem grows_evaluate (host : Host) (depth : Nat) (scope : FrameId) (e : Expr) :
    (evaluate host depth scope e).Grows := by
  -- The depth bounds the calls, and every part of an expression is evaluated at a smaller one.
  induction depth generalizing scope e with
  | zero =>
    intro s s' h
    nomatch h
  | succ depth ih =>
    cases e with
    | var name => exact grows_readOrFail _
    | number | bool | null | keyword | value => exact grows_pure _
    | lambda params body =>
      exact (grows_create fun s => s.extends_addClosure _).bind fun id => grows_pure _
    | application head args =>
      refine (ih scope head).bind fun callee => ?_
      exact (grows_evaluateAll (ih scope) args).bind fun values =>
        grows_applyWith host ih callee values
    | conditional guard consequent alternative =>
      refine (ih scope guard).bind fun v => ?_
      cases v with
      | bool b =>
        cases b with
        | true => exact ih scope consequent
        | false => exact ih scope alternative
      | number | null | keyword | closure | primitive | object => exact grows_failWith _

end ObjectLisp
