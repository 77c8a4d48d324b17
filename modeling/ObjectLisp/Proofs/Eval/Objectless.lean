import ObjectLisp.Proofs.Eval.Trace

/-!
# Programs without objects

Where no primitive makes objects, none is made at all: an object can also be made by applying
another one, but for this there has to be one already. So a store without objects stays without them
as long as the primitives that can be reached make none, and the errors about objects do not occur
(`runsObjectless_evaluate`).
-/

namespace ObjectLisp

open ObjectLisp.Action

variable {α β : Type} {allowed : Primitive → Prop} {host : Host} {s t : Store}

/-- The primitive returns new objects. -/
def Primitive.makesObjects : Primitive → Bool
  | .makeObject | .animal | .dog | .cat => true
  | .arithmetic _ | .isZero | .field | .host _ _ => false

/-- The error is about the keys, the fields or the prototype of an object. -/
def RuntimeError.isAboutObjects : RuntimeError → Bool
  | keyType _ | oddArguments _ | disallowedField .. | invalidPrototype _ | fieldNotFound ..
  | prototypeCycle _ => true
  | unboundVariable _ | redefinition _ | arityMismatch .. | argumentType .. | guardType _
  | notCallable _ => false

/-- None of the primitives returns new objects. -/
def MakesNoObjects (allowed : Primitive → Prop) : Prop := ∀ p, allowed p → p.makesObjects = false

/-! ## Outcomes -/

/-- A finished action leaves no objects, and its error is not about one. -/
def Outcome.Objectless : Outcome α → Prop
  | .value _ s => s.objects = #[]
  | .error e s => s.objects = #[] ∧ e.isAboutObjects = false
  | .outOfFuel => True

/-- A sequence leaves no objects if its parts leave none. -/
theorem Outcome.Objectless.bind {x : Action α} {f : α → Action β} (h : (x s).Objectless)
    (hf : ∀ a t, x s = .value a t → t.objects = #[] → (f a t).Objectless) :
    ((x >>= f) s).Objectless := by
  show (andThen x f s).Objectless
  unfold andThen
  cases hx : x s with
  | value a t =>
    rw [hx] at h
    exact hf a t hx h
  | error e t =>
    rw [hx] at h
    exact h
  | outOfFuel => exact trivial

/-- In a store without objects, no value is one. -/
theorem Value.IsValid.ne_object {v : Value} (hv : v.IsValid allowed s) (hs : s.objects = #[])
    (id : ObjectId) : v ≠ .object id := by
  rintro rfl
  have hid : id.index < s.objects.size := hv
  rw [hs] at hid
  exact Nat.not_lt_zero _ hid

/-! ## Primitives -/

namespace Primitive

/-- An argument is checked without an object. -/
theorem objectless_argument (hs : s.objects = #[]) (p : Primitive) (position : Nat)
    (expected : ArgumentType) (content : Value → Option α) (v : Value) :
    (p.argument position expected content v s).Objectless := by
  unfold argument
  cases content v with
  | some a => exact hs
  | none => exact ⟨hs, rfl⟩

/-- A primitive that makes no objects leaves none, and there is none in which it could miss a
field. -/
theorem objectless_call (host : Host) {p : Primitive} (hp : p.makesObjects = false)
    (hs : s.objects = #[]) {args : List Value} (hargs : ∀ v ∈ args, v.IsValid allowed s) :
    (p.call host args s).Objectless := by
  unfold call
  split
  · refine (objectless_argument hs _ _ _ _ _).bind fun x t _ ht => ?_
    exact (objectless_argument ht _ _ _ _ _).bind fun y u _ hu => hu
  · exact (objectless_argument hs _ _ _ _ _).bind fun x t _ ht => ht
  · refine (objectless_argument hs _ _ _ _ _).bind fun id t hid _ => ?_
    have hobject := Value.eq_object_of_object? (argument_eq_value hid).1
    exact absurd hobject ((hargs _ List.mem_cons_self).ne_object hs id)
  · nomatch hp
  · nomatch hp
  · nomatch hp
  · nomatch hp
  · exact hs
  · exact ⟨hs, rfl⟩

end Primitive

/-! ## Evaluation -/

/-- In well-formed stores without objects, valid expressions in scopes of the store have objectless
outcomes. -/
def RunsObjectless (allowed : Primitive → Prop) (run : FrameId → Expr → Action Value) : Prop :=
  ∀ ⦃s : Store⦄ ⦃scope : FrameId⦄ ⦃e : Expr⦄, s.WellFormed allowed → s.objects = #[] →
    scope.index < s.frames.size → e.IsValid allowed s → (run scope e s).Objectless

namespace RunsObjectless

variable {run : FrameId → Expr → Action Value}

/-- A call makes no object where no primitive and no object can be called for one. -/
theorem applyWith (hrun : RunsObjectless allowed run) (hallowed : MakesNoObjects allowed)
    (host : Host) (h : s.WellFormed allowed) (hs : s.objects = #[]) {callee : Value}
    (hcallee : callee.IsValid allowed s) {args : List Value}
    (hargs : ∀ v ∈ args, v.IsValid allowed s) :
    (ObjectLisp.applyWith host run callee args s).Objectless := by
  cases callee with
  | closure id =>
    rw [applyWith_closure]
    split
    · exact ⟨hs, rfl⟩
    · next hlength =>
      cases hd : Store.bindParameters (s.closure id).params args with
      | error e =>
        obtain ⟨name, rfl⟩ :=
          Store.eq_redefinition_of_bindParameters (Decidable.not_not.1 hlength) hd
        exact ⟨hs, rfl⟩
      | ok d =>
        have hframe := Frame.isValid_of_bindParameters hd hargs (some (s.closure id).scope)
        have hbody := (h.isValid_closure hcallee).body
        exact hrun (h.addFrame hframe) hs (by simp)
          (hbody.mono (s.extends_addFrame _))
  | primitive p => exact Primitive.objectless_call host (hallowed p hcallee) hs hargs
  -- There is no object that could be the callee.
  | object id => exact absurd rfl (hcallee.ne_object hs id)
  | number | bool | null | keyword => exact ⟨hs, rfl⟩

/-- Expressions in a row make none. -/
theorem evaluateAll (hrun : RunsObjectless allowed run) (hvalid : RunsValid allowed run)
    (hgrows : ∀ scope e, (run scope e).Grows) {scope : FrameId} (h : s.WellFormed allowed)
    (hs : s.objects = #[]) (hscope : scope.index < s.frames.size) {es : List Expr}
    (hes : ∀ e ∈ es, e.IsValid allowed s) :
    (ObjectLisp.evaluateAll (run scope) es s).Objectless := by
  induction es generalizing s with
  | nil => exact hs
  | cons e rest ih =>
    obtain ⟨he, hrest⟩ := List.forall_mem_cons.1 hes
    refine (hrun h hs hscope he).bind fun v t hv ht => ?_
    have hext := (hgrows scope e).extends_of_value hv
    have h₁ := hvalid h hscope he
    rw [hv] at h₁
    exact (ih h₁.1 ht (hext.frame_lt hscope) fun e he => (hrest e he).mono hext).bind
      fun vs u _ hu => hu

end RunsObjectless

/-- Evaluation makes no objects where no primitive does, within every depth. -/
theorem runsObjectless_evaluate (hallowed : MakesNoObjects allowed) (host : Host) (depth : Nat) :
    RunsObjectless allowed (evaluate host depth) := by
  induction depth with
  | zero =>
    intro s scope e _ _ _ _
    exact trivial
  | succ depth ih =>
    have hvalid := runsValid_evaluate allowed host depth
    have hgrows := grows_evaluate host depth
    intro s scope e h hs hscope he
    cases e with
    | var name =>
      rw [evaluate_var]
      cases s.get? scope name with
      | some v => exact hs
      | none => exact ⟨hs, rfl⟩
    | number | bool | null | keyword | value | lambda => exact hs
    | application head args =>
      -- No part leaves an object behind, so none can be called.
      have hhead : head.IsValid allowed s := fun v hv => he v (List.mem_append_left _ hv)
      refine (ih h hs hscope hhead).bind fun callee s₁ hcallee hs₁ => ?_
      have hext := (hgrows scope head).extends_of_value hcallee
      have h₁ := hvalid h hscope hhead
      rw [hcallee] at h₁
      have hargs : ∀ a ∈ args, a.IsValid allowed s₁ := fun a ha v hv =>
        (he v (List.mem_append_right _ (Expr.mem_allValues.2 ⟨a, ha, hv⟩))).mono hext
      refine (ih.evaluateAll hvalid hgrows h₁.1 hs₁ (hext.frame_lt hscope) hargs).bind
        fun vs s₂ hvs hs₂ => ?_
      have h₂ := hvalid.evaluateAll hgrows h₁.1 (hext.frame_lt hscope) hargs
      rw [hvs] at h₂
      refine ih.applyWith hallowed host h₂.1 hs₂ (h₁.2.mono ?_) h₂.2
      exact (grows_evaluateAll (hgrows scope) args).extends_of_value hvs
    | conditional guard consequent alternative =>
      have hguard : guard.IsValid allowed s := fun v hv =>
        he v (List.mem_append_left _ (List.mem_append_left _ hv))
      refine (ih h hs hscope hguard).bind fun v s₁ hv hs₁ => ?_
      have hext := (hgrows scope guard).extends_of_value hv
      have h₁ := hvalid h hscope hguard
      rw [hv] at h₁
      cases v with
      | bool b =>
        cases b with
        | true =>
          exact ih h₁.1 hs₁ (hext.frame_lt hscope) fun v hv =>
            (he v (List.mem_append_left _ (List.mem_append_right _ hv))).mono hext
        | false =>
          exact ih h₁.1 hs₁ (hext.frame_lt hscope) fun v hv =>
            (he v (List.mem_append_right _ hv)).mono hext
      | number | null | keyword | closure | primitive | object => exact ⟨hs₁, rfl⟩

/-- What is evaluated where no primitive makes objects ends without them, and not with an error
about one. -/
theorem EvaluatesTo.objectless {scope : FrameId} {e : Expr} {r : Except RuntimeError Value}
    (h : EvaluatesTo host scope e s r t) (hallowed : MakesNoObjects allowed)
    (hs : s.WellFormed allowed) (hobjects : s.objects = #[])
    (hscope : scope.index < s.frames.size) (he : e.IsValid allowed s) :
    t.objects = #[] ∧ ∀ err, r = .error err → err.isAboutObjects = false := by
  obtain ⟨depth, h⟩ := h
  have hout := runsObjectless_evaluate hallowed host depth hs hobjects hscope he
  cases hrun : evaluate host depth scope e s <;> rw [hrun] at h hout <;> cases h
  · exact ⟨hout, nofun⟩
  · refine ⟨hout.1, ?_⟩
    rintro _ ⟨⟩
    exact hout.2

end ObjectLisp
