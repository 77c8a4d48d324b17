import ObjectLisp.Proofs.Eval.Scoping
import ObjectLisp.Proofs.Eval.Validity

/-!
# Calls of the evaluator

From outside, the evaluator is used by two kinds of `Call`: an expression is evaluated in a scope,
or a value is applied to arguments. A call that ends, with a value or with an error, leaves the
store as it was with more at the end (`Call.Leaves.extends`).

So the calls before an evaluation make no difference to it. They only make the store larger, a
larger store corresponds to the smaller one with everything in its place, and corresponding stores
give the same results (`Store.WellFormed.result?_evaluate_of_extends`).
-/

namespace ObjectLisp

variable {host : Host} {s t u : Store}

/-! ## Calls -/

/-- A use of the evaluator. -/
inductive Call where
  | evaluate (scope : FrameId) (e : Expr)
  | apply (callee : Value) (args : List Value)

namespace Call

/-- Do what the call asks for, within a depth. -/
def run (host : Host) (depth : Nat) : Call → Action Value
  | .evaluate scope e => ObjectLisp.evaluate host depth scope e
  | .apply callee args => ObjectLisp.apply host depth callee args

/-- The call ends, with a value or an error, and leaves the store `t`. -/
def Leaves (host : Host) (call : Call) (s t : Store) : Prop :=
  ∃ depth, (call.run host depth s).store? = some t

theorem grows_run (host : Host) (depth : Nat) (call : Call) : (call.run host depth).Grows := by
  cases call with
  | evaluate scope e => exact grows_evaluate host depth scope e
  | apply callee args => exact grows_applyWith host (grows_evaluate host depth) callee args

theorem Leaves.extends {call : Call} (h : call.Leaves host s t) : s.Extends t := by
  obtain ⟨depth, h⟩ := h
  exact grows_run host depth call s t h

/-- A call that has ended, also one that has failed, has changed no frame, no closure and no object:
all that there was is still in its place, and new ones come after it. -/
theorem eq_append_of_leaves {call : Call} (h : call.Leaves host s t) :
    ∃ frames closures objects,
      t = ⟨s.frames ++ frames, s.closures ++ closures, s.objects ++ objects⟩ :=
  h.extends.exists_append

end Call

/-- A dog is made and handed to a function that asks it for a field it has not. -/
def Call.failing : Call :=
  .evaluate ⟨1⟩ (.application
    (.lambda ["dog"] (.application (.value (.primitive .field)) [.var "dog", .keyword "name"]))
    [.application (.value (.primitive .dog)) [.number 1, .bool true]])

/-- The call fails after it has made a closure, two objects and a frame, and what was there is as it
was. -/
theorem Call.eq_append_of_failing :
    ∃ t, Call.failing.Leaves .echo .shadowing t ∧
      (t.frames.size, t.closures.size, t.objects.size) = (3, 2, 2) ∧
      ∃ frames closures objects, t = ⟨Store.shadowing.frames ++ frames,
        Store.shadowing.closures ++ closures, Store.shadowing.objects ++ objects⟩ := by
  have hrun : (Call.failing.run .echo 4 .shadowing).store?.map
      (fun t => (t.frames.size, t.closures.size, t.objects.size)) = some (3, 2, 2) := by
    decide +kernel
  obtain ⟨t, ht, hsizes⟩ := Option.map_eq_some_iff.1 hrun
  exact ⟨t, ⟨4, ht⟩, hsizes, eq_append_of_leaves ⟨4, ht⟩⟩

/-! ## Sequences of calls -/

/-- The calls end one after another, and the last of them leaves the store `t`. -/
inductive CallsLeave (host : Host) : List Call → Store → Store → Prop
  | nil (s : Store) : CallsLeave host [] s s
  | cons {call : Call} {calls : List Call} {s t u : Store} (h : call.Leaves host s t)
      (hs : CallsLeave host calls t u) : CallsLeave host (call :: calls) s u

theorem CallsLeave.extends {calls : List Call} (h : CallsLeave host calls s t) : s.Extends t := by
  induction h with
  | nil s => exact .refl s
  | cons h _ ih => exact h.extends.trans ih

/-! ## Larger stores -/

namespace Store.WellFormed

/-- A valid value has the same text in every larger store. -/
theorem text_eq_of_extends (hs : s.WellFormed (Primitive.IsUniform host)) (hst : s.Extends t)
    {v : Value} (hv : v.IsValid (Primitive.IsUniform host) s) : t.text v = s.text v :=
  ((hs.sim.extend (.refl s) hst).text_eq hv.relates).symm

/-- An expression has the same result in every larger store, within every depth. -/
theorem result?_evaluate_of_extends (hs : s.WellFormed (Primitive.IsUniform host))
    (hst : s.Extends t) {scope : FrameId} (hscope : scope.index < s.frames.size) {e : Expr}
    (he : e.IsValid (Primitive.IsUniform host) s) (depth : Nat) :
    (evaluate host depth scope e t).result? = (evaluate host depth scope e s).result? := by
  have hagrees := (hs.agrees hscope hscope he fun _ _ => rfl).mono (.refl _) (.refl s) hst
  have hrun := runsAgree_evaluate host depth (hs.sim.extend (.refl s) hst) hagrees
  rw [Expr.subst_nil] at hrun
  exact hrun.result?_eq.symm

end Store.WellFormed

/-- An outcome that shows a text is a value with this text. -/
theorem Outcome.eq_value_of_result? {o : Outcome Value} {text : String}
    (h : o.result? = some (.ok text)) : ∃ v t, o = .value v t ∧ t.text v = text := by
  cases o with
  | value v t => exact ⟨v, t, rfl, Except.ok.inj (Option.some.inj h)⟩
  | error e t => nomatch h
  | outOfFuel => nomatch h

/-- Two evaluations that succeed one after the other succeed in the other order too, and each value
has the text it had, whether it is written at once or when both are there. -/
theorem Store.WellFormed.evaluate_swap (hs : s.WellFormed (Primitive.IsUniform host))
    {f g : FrameId} (hf : f.index < s.frames.size) (hg : g.index < s.frames.size) {e e' : Expr}
    (he : e.IsValid (Primitive.IsUniform host) s) (he' : e'.IsValid (Primitive.IsUniform host) s)
    {depth depth' : Nat} {v v' : Value} (h : evaluate host depth f e s = .value v t)
    (h' : evaluate host depth' g e' t = .value v' u) :
    ∃ w w' t' u', evaluate host depth' g e' s = .value w' t' ∧
      evaluate host depth f e t' = .value w u' ∧ u'.text w = t.text v ∧ t'.text w' = u.text v' ∧
      u.text v = t.text v ∧ u'.text w' = t'.text w' := by
  have hst : s.Extends t := (grows_evaluate host depth f e).extends_of_value h
  have htu : t.Extends u := (grows_evaluate host depth' g e').extends_of_value h'
  -- The second expression needs nothing that the first one has made.
  have hfirst := hs.result?_evaluate_of_extends hst hg he' depth'
  rw [h', Outcome.result?] at hfirst
  obtain ⟨w', t', hw', htext'⟩ := Outcome.eq_value_of_result? hfirst.symm
  have hst' : s.Extends t' := (grows_evaluate host depth' g e').extends_of_value hw'
  have hsecond := hs.result?_evaluate_of_extends hst' hf he depth
  rw [h, Outcome.result?] at hsecond
  obtain ⟨w, u', hw, htext⟩ := Outcome.eq_value_of_result? hsecond
  have htu' : t'.Extends u' := (grows_evaluate host depth f e).extends_of_value hw
  -- Both first values are valid in the stores they were found in, so their texts stay.
  have hvalid := runsValid_evaluate (Primitive.IsUniform host) host depth hs hf he
  have hvalid' := runsValid_evaluate (Primitive.IsUniform host) host depth' hs hg he'
  rw [h] at hvalid
  rw [hw'] at hvalid'
  exact ⟨w, w', t', u', hw', hw, htext, htext', hvalid.1.text_eq_of_extends htu hvalid.2,
    hvalid'.1.text_eq_of_extends htu' hvalid'.2⟩

/-! ## Independence -/

/-- Whether an evaluation ends, and with which result, does not depend on the calls before it. So a
second evaluation of an expression has the result of the first one, and two expressions have the
same texts in either order. -/
theorem evaluates_iff_of_callsLeave (hs : s.WellFormed (Primitive.IsUniform host))
    {scope : FrameId} (hscope : scope.index < s.frames.size) {e : Expr}
    (he : e.IsValid (Primitive.IsUniform host) s) :
    (∀ calls t, CallsLeave host calls s t →
      ∀ r, Evaluates host scope e t r ↔ Evaluates host scope e s r)
    ∧ (∀ t, (Call.evaluate scope e).Leaves host s t →
      ∃ r, Evaluates host scope e s r ∧ Evaluates host scope e t r)
    ∧ ∀ (scope' : FrameId) (e' : Expr), scope'.index < s.frames.size →
      e'.IsValid (Primitive.IsUniform host) s → ∀ depth depth' v v' t u,
      evaluate host depth scope e s = .value v t → evaluate host depth' scope' e' t = .value v' u →
      ∃ w w' t' u', evaluate host depth' scope' e' s = .value w' t' ∧
        evaluate host depth scope e t' = .value w u' ∧ u'.text w = t.text v ∧
        t'.text w' = u.text v' ∧ u.text v = t.text v ∧ u'.text w' = t'.text w' := by
  have hlarger : ∀ t : Store, s.Extends t → ∀ r,
      Evaluates host scope e t r ↔ Evaluates host scope e s r := fun t hst r =>
    exists_congr fun depth => by rw [hs.result?_evaluate_of_extends hst hscope he depth]
  refine ⟨fun calls t h => hlarger t h.extends, fun t h => ?_, fun scope' e' hscope' he' => ?_⟩
  · obtain ⟨depth, hleaves⟩ := h
    obtain ⟨r, hr⟩ : ∃ r, (evaluate host depth scope e s).result? = some r := by
      change (evaluate host depth scope e s).store? = some t at hleaves
      cases hout : evaluate host depth scope e s with
      | value v t => exact ⟨_, rfl⟩
      | error e t => exact ⟨_, rfl⟩
      | outOfFuel =>
        rw [hout] at hleaves
        nomatch hleaves
    exact ⟨r, ⟨depth, hr⟩, (hlarger t (Call.Leaves.extends ⟨depth, hleaves⟩) r).2 ⟨depth, hr⟩⟩
  · intro depth depth' v v' t u h h'
    exact hs.evaluate_swap hscope hscope' he he' h h'

/-- A call that fails half-way and an application of `f` come before a call of `f`. -/
theorem evaluates_iff_of_failing_call :
    ∃ t, CallsLeave .echo [.failing, .apply (.closure ⟨0⟩) [.bool false]] .shadowing t ∧
      t.frames.size = 4 ∧
      Evaluates .echo ⟨1⟩ (.application (.var "f") [.bool true]) t (.ok ":shared") := by
  have hrun : ((Call.failing.run .echo 4 .shadowing).store?.bind fun t =>
      ((Call.apply (.closure ⟨0⟩) [.bool false]).run .echo 2 t).store?).map
        (·.frames.size) = some 4 := by decide +kernel
  obtain ⟨u, hu, hsize⟩ := Option.map_eq_some_iff.1 hrun
  obtain ⟨t, ht, hu⟩ := Option.bind_eq_some_iff.1 hu
  have hcalls : CallsLeave .echo [.failing, .apply (.closure ⟨0⟩) [.bool false]] .shadowing u :=
    .cons ⟨4, ht⟩ (.cons ⟨2, hu⟩ (.nil u))
  refine ⟨u, hcalls, hsize, ((evaluates_iff_of_callsLeave (Store.wellFormed_shadowing _) ?_ ?_).1
    _ _ hcalls _).2 ⟨3, by decide +kernel⟩⟩
  · decide +kernel
  · intro v hv
    simp [Expr.values, Expr.allValues] at hv

end ObjectLisp
