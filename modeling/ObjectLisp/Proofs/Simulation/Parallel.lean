import ObjectLisp.Proofs.Eval.Execution
import ObjectLisp.Proofs.Simulation.Evaluation
import ObjectLisp.Proofs.Store.Binding

/-!
# Stores with corresponding frames

Two runs of one program that differ only in where their closures and objects stand create their
frames in step. Then the stores are `Parallel`: frames correspond place by place, and corresponding
closures are one and the same lambda in the same frame. This is more than `Sim` says. Since every
name has corresponding values in every scope, and not only the free names of what is evaluated, a
definition on both sides keeps stores parallel (`Parallel.assign`), and whole programs agree in them
(`Parallel.executeAll_agrees`).
-/

namespace ObjectLisp

open ObjectLisp.Action

variable {host : Host} {W W' : World} {s t : Store}

/-! ## Frames -/

/-- Frames with the same names, corresponding values and the same frame around them. -/
structure FrameAgrees (host : Host) (W : World) (f g : Frame) : Prop where
  bindings : f.bindings.Matches (W.Relates host) g.bindings
  outer : f.outer = g.outer

/-- Frames that agree do so in a larger world. -/
theorem FrameAgrees.mono {f g : Frame} (h : FrameAgrees host W f g) (hW : W.Le W') :
    FrameAgrees host W' f g where
  bindings := h.bindings.imp fun _ _ hvw => hvw.mono hW
  outer := h.outer

/-- If all frames correspond, names have corresponding values in every scope. -/
theorem rel_get?_of_frames (h : ∀ id, FrameAgrees host W (s.frame id) (t.frame id))
    (scope : FrameId) (name : String) :
    Option.Rel (W.Relates host) (s.get? scope name) (t.get? scope name) := by
  -- The chain goes on to older frames, so the induction is on the number of the frame.
  induction hn : scope.index using Nat.strongRecOn generalizing scope with
  | ind n ih =>
    have hname := (h scope).bindings name
    rw [Store.get?_eq, Store.get?_eq, (h scope).outer]
    generalize (s.frame scope).bindings.get? name = v at hname ⊢
    generalize (t.frame scope).bindings.get? name = w at hname ⊢
    cases hname with
    | some hvw => exact .some hvw
    | none =>
      rw [Option.none_or, Option.none_or]
      cases (t.frame scope).outer with
      | none => exact .none
      | some outer =>
        dsimp only
        split
        · next hlt => exact ih outer.index (hn ▸ hlt) outer rfl
        · exact .none

/-! ## Parallel stores -/

/-- All frames correspond, each to that in its place. What corresponds in `W` is there in both
stores: closures are the same on both sides, objects agree, and no object corresponds to two
others. -/
structure Parallel (host : Host) (W : World) (s t : Store) : Prop where
  size : s.frames.size = t.frames.size
  frames : ∀ id, FrameAgrees host W (s.frame id) (t.frame id)
  closures : ∀ i j, W.closures i j → ∃ c, s.closures[i.index]? = some c ∧
    t.closures[j.index]? = some c ∧ c.scope.index < s.frames.size ∧
    ∀ v ∈ c.body.values, W.Relates host v v
  objects : ∀ x y, W.objects x y → ∃ a b, s.objects[x.index]? = some a ∧
    t.objects[y.index]? = some b ∧ ObjectAgrees host W a b
  oneToOne : ∀ {x y x' y'}, W.objects x y → W.objects x' y' → (x = x' ↔ y = y')

namespace Parallel

/-- In parallel stores an expression agrees with itself, if its values do. -/
theorem agrees (h : Parallel host W s t) {scope : FrameId} (hscope : scope.index < s.frames.size)
    {e : Expr} (he : ∀ v ∈ e.values, W.Relates host v v) :
    Agrees host W s t scope scope [] e where
  left := hscope
  right := h.size ▸ hscope
  values := he
  names x _ := by
    rw [List.lookup_nil, Option.none_or]
    exact rel_get?_of_frames h.frames scope x

/-- Parallel stores correspond. -/
theorem sim (h : Parallel host W s t) : Sim host W s t where
  closures i j hij := by
    obtain ⟨c, hc, hd, hscope, hvalues⟩ := h.closures i j hij
    have hlambda : ∀ v ∈ (Expr.lambda c.params c.body).values, W.Relates host v v := hvalues
    exact ⟨c, c, hc, hd, [], rfl, (Expr.subst_nil _).symm, h.agrees hscope hlambda⟩
  objects := h.objects
  oneToOne := h.oneToOne

/-- Corresponding closures are the same. -/
theorem closure_eq (h : Parallel host W s t) {i j : ClosureId} (hij : W.closures i j) :
    t.closure j = s.closure i ∧ (s.closure i).scope.index < s.frames.size
      ∧ ∀ v ∈ (s.closure i).body.values, W.Relates host v v := by
  obtain ⟨c, hc, hd, hscope, hvalues⟩ := h.closures i j hij
  rw [Store.closure, Store.closure, Array.getD_eq_getD_getElem?, Array.getD_eq_getD_getElem?, hc,
    hd]
  exact ⟨rfl, hscope, hvalues⟩

/-! ## Growth -/

/-- Two new frames that agree keep stores parallel. -/
theorem addFrame (h : Parallel host W s t) {f g : Frame} (hfg : FrameAgrees host W f g) :
    Parallel host W (s.addFrame f).2 (t.addFrame g).2 where
  size := by
    rw [Store.addFrame, Store.addFrame, Array.size_push, Array.size_push, h.size]
  frames id := by
    rw [Store.frame_addFrame, Store.frame_addFrame, h.size]
    split
    · exact hfg
    · exact h.frames id
  closures i j hij := by
    obtain ⟨c, hc, hd, hscope, hvalues⟩ := h.closures i j hij
    exact ⟨c, hc, hd, (s.extends_addFrame f).frame_lt hscope, hvalues⟩
  objects := h.objects
  oneToOne := h.oneToOne

/-- A new closure on both sides keeps stores parallel. -/
theorem addClosure (h : Parallel host W s t) {c : Closure} (hscope : c.scope.index < s.frames.size)
    (hvalues : ∀ v ∈ c.body.values, W.Relates host v v) :
    Parallel host (W.addClosure (s.addClosure c).1 (t.addClosure c).1) (s.addClosure c).2
      (t.addClosure c).2 := by
  have hW := W.le_addClosure (s.addClosure c).1 (t.addClosure c).1
  refine ⟨h.size, fun id => (h.frames id).mono hW, fun i j hij => ?_, fun x y hxy => ?_, h.oneToOne⟩
  · rcases hij with hij | ⟨rfl, rfl⟩
    · obtain ⟨c', hc', hd', hscope', hvalues'⟩ := h.closures i j hij
      exact ⟨c', (s.extends_addClosure c).closures _ _ hc',
        (t.extends_addClosure c).closures _ _ hd', hscope', fun v hv => (hvalues' v hv).mono hW⟩
    · exact ⟨c, Array.getElem?_push_size, Array.getElem?_push_size, hscope,
        fun v hv => (hvalues v hv).mono hW⟩
  · obtain ⟨a, b, ha, hb, hab⟩ := h.objects x y hxy
    exact ⟨a, b, ha, hb, hab.mono hW⟩

/-- Two new objects that agree keep stores parallel. -/
theorem addObject (h : Parallel host W s t) {a b : Object} (hab : ObjectAgrees host W a b) :
    Parallel host (W.addObject (s.addObject a).1 (t.addObject b).1) (s.addObject a).2
      (t.addObject b).2 where
  size := h.size
  frames id := (h.frames id).mono (W.le_addObject _ _)
  closures i j hij := by
    obtain ⟨c, hc, hd, hscope, hvalues⟩ := h.closures i j hij
    exact ⟨c, hc, hd, hscope, fun v hv => (hvalues v hv).mono (W.le_addObject _ _)⟩
  objects := (h.sim.addObject hab).objects
  oneToOne := (h.sim.addObject hab).oneToOne

/-- A name may be bound to corresponding values. -/
theorem assign (h : Parallel host W s t) {scope : FrameId} (hscope : scope.index < s.frames.size)
    (name : String) {v w : Value} (hvw : W.Relates host v w) :
    Parallel host W (s.assign scope name v) (t.assign scope name w) where
  size := by
    rw [Store.assign, Store.assign, Store.setFrame, Store.setFrame, Array.size_setIfInBounds,
      Array.size_setIfInBounds, h.size]
  frames id := by
    by_cases hid : id = scope
    · rw [hid, Store.frame_assign hscope, Store.frame_assign (h.size ▸ hscope)]
      exact ⟨(h.frames scope).bindings.insert name hvw, (h.frames scope).outer⟩
    · rw [Store.frame_assign_of_ne hid, Store.frame_assign_of_ne hid]
      exact h.frames id
  closures i j hij := by
    rw [Store.assign, Store.setFrame, Array.size_setIfInBounds]
    exact h.closures i j hij
  objects := h.objects
  oneToOne := h.oneToOne

end Parallel

/-- Parallel stores are a correspondence. -/
theorem isCorrespondence_parallel (host : Host) : IsCorrespondence host (Parallel host) where
  sim h := h.sim
  addObject h hab := h.addObject hab

/-! ## Evaluation -/

/-- Evaluations by `run` of an expression in one scope of parallel stores agree, if the values that
the expression holds correspond to themselves. -/
def RunsParallel (host : Host) (run : FrameId → Expr → Action Value) : Prop :=
  ∀ ⦃W : World⦄ ⦃s t : Store⦄ ⦃scope : FrameId⦄ ⦃e : Expr⦄, Parallel host W s t →
    scope.index < s.frames.size → (∀ v ∈ e.values, W.Relates host v v) →
    OutcomesRelated (Parallel host) W (World.Relates host) (run scope e s) (run scope e t)

namespace RunsParallel

variable {run : FrameId → Expr → Action Value}

/-- Calls of corresponding closures agree: their bodies are the same and run in new frames that
agree. -/
theorem applyWith_closure (hrun : RunsParallel host run) (h : Parallel host W s t)
    {i j : ClosureId} (hij : W.closures i j) {vs ws : List Value}
    (hvs : List.Forall₂ (W.Relates host) vs ws) :
    OutcomesRelated (Parallel host) W (World.Relates host)
      (ObjectLisp.applyWith host run (.closure i) vs s)
      (ObjectLisp.applyWith host run (.closure j) ws t) := by
  obtain ⟨hclosure, hscope, hvalues⟩ := h.closure_eq hij
  rw [ObjectLisp.applyWith_closure, ObjectLisp.applyWith_closure, hclosure, hvs.length_eq,
    h.sim.text_eq (.closure hij)]
  split
  · exact .error _ s t
  · have hbind : AnswersAgree _ (Store.bindParameters (s.closure i).params vs)
        (Store.bindParameters (s.closure i).params ws) := bindParameters_agrees hvs
    generalize Store.bindParameters (s.closure i).params vs = r at hbind ⊢
    generalize Store.bindParameters (s.closure i).params ws = r' at hbind ⊢
    cases hbind with
    | error e => exact .error e s t
    | @ok d d' hd =>
      -- The new frames stand in the same place, after the frames that were there.
      have hplace : (t.addFrame ⟨d', some (s.closure i).scope⟩).1
          = (s.addFrame ⟨d, some (s.closure i).scope⟩).1 := congrArg FrameId.mk h.size.symm
      dsimp only
      rw [hplace]
      exact hrun (h.addFrame ⟨hd, rfl⟩) (by simp [Store.addFrame]) hvalues

/-- Applications of corresponding values to corresponding arguments agree. -/
theorem applyWith (hrun : RunsParallel host run) (h : Parallel host W s t) {v w : Value}
    (hvw : W.Relates host v w) {vs ws : List Value} (hvs : List.Forall₂ (W.Relates host) vs ws) :
    OutcomesRelated (Parallel host) W (World.Relates host) (ObjectLisp.applyWith host run v vs s)
      (ObjectLisp.applyWith host run w ws t) :=
  (isCorrespondence_parallel host).applyWith_agrees h hvs
    (fun _ _ hij => hrun.applyWith_closure h hij hvs) hvw

/-- Expressions in a row are evaluated in parallel if each of them is. -/
theorem evaluateAll (hrun : RunsParallel host run) (hgrows : ∀ scope e, (run scope e).Grows)
    (h : Parallel host W s t) {scope : FrameId} (hscope : scope.index < s.frames.size)
    {es : List Expr} (hes : ∀ e ∈ es, ∀ v ∈ e.values, W.Relates host v v) :
    OutcomesRelated (Parallel host) W (fun W => List.Forall₂ (W.Relates host))
      (ObjectLisp.evaluateAll (run scope) es s) (ObjectLisp.evaluateAll (run scope) es t) := by
  induction es generalizing W s t with
  | nil => exact pure_agrees h .nil
  | cons e rest ih =>
    obtain ⟨he, hrest⟩ := List.forall_mem_cons.1 hes
    refine (hrun h hscope he).bind fun W₁ v w s₁ t₁ hW₁ h₁ hvw hs _ => ?_
    have hscope₁ := ((hgrows scope e).extends_of_value hs).frame_lt hscope
    refine (ih h₁ hscope₁ fun e he v hv => (hrest e he v hv).mono hW₁).bind
      fun W₂ vs ws s₂ t₂ hW₂ h₂ hvs _ _ => ?_
    exact pure_agrees h₂ (.cons (hvw.mono hW₂) hvs)

end RunsParallel

/-- Evaluations of an expression in parallel stores agree within every depth. -/
theorem runsParallel_evaluate (host : Host) (depth : Nat) :
    RunsParallel host (evaluate host depth) := by
  induction depth with
  | zero =>
    intro W s t scope e _ _ _
    exact .outOfFuel
  | succ depth ih =>
    intro W s t scope e h hscope he
    cases e with
    | var name =>
      have hname := rel_get?_of_frames h.frames scope name
      rw [evaluate_var, evaluate_var]
      generalize s.get? scope name = v at hname ⊢
      generalize t.get? scope name = w at hname ⊢
      cases hname with
      | some hvw => exact .value (.refl W) h hvw
      | none => exact .error _ s t
    | number x => exact pure_agrees h (.number x)
    | bool b => exact pure_agrees h (.bool b)
    | null => exact pure_agrees h .null
    | keyword name => exact pure_agrees h (.keyword name)
    | value v => exact pure_agrees h (he v List.mem_cons_self)
    | lambda params body =>
      exact .value (W.le_addClosure _ _) (h.addClosure hscope he) (.closure (.inr ⟨rfl, rfl⟩))
    | application head args =>
      -- Each part starts from stores that are parallel in the world that the part before it ended
      -- in.
      refine (ih h hscope fun v hv => he v (List.mem_append_left _ hv)).bind
        fun W₁ v w s₁ t₁ hW₁ h₁ hvw hs _ => ?_
      have hscope₁ := ((grows_evaluate _ _ _ _).extends_of_value hs).frame_lt hscope
      have hargs : ∀ a ∈ args, ∀ v ∈ a.values, W₁.Relates host v v := fun a ha v hv =>
        (he v (List.mem_append_right _ (Expr.mem_allValues.2 ⟨a, ha, hv⟩))).mono hW₁
      refine (ih.evaluateAll (grows_evaluate host depth) h₁ hscope₁ hargs).bind
        fun W₂ vs ws s₂ t₂ hW₂ h₂ hvs _ _ => ?_
      exact ih.applyWith h₂ (hvw.mono hW₂) hvs
    | conditional guard consequent alternative =>
      have hguard : ∀ v ∈ guard.values, W.Relates host v v := fun v hv =>
        he v (List.mem_append_left _ (List.mem_append_left _ hv))
      refine (ih h hscope hguard).bind fun W₁ v w s₁ t₁ hW₁ h₁ hvw hs _ => ?_
      have hscope₁ := ((grows_evaluate _ _ _ _).extends_of_value hs).frame_lt hscope
      -- Should the guard be no truth value, the two errors have the same text.
      have htext := h₁.sim.text_eq hvw
      cases hvw with
      | bool b =>
        cases b with
        | true =>
          exact ih h₁ hscope₁ fun v hv =>
            (he v (List.mem_append_left _ (List.mem_append_right _ hv))).mono hW₁
        | false =>
          exact ih h₁ hscope₁ fun v hv => (he v (List.mem_append_right _ hv)).mono hW₁
      | number | null | keyword | primitive | closure | object =>
        exact failWith_agrees (congrArg RuntimeError.guardType htext)

/-! ## Programs -/

/-- A definition adds and removes no frame. -/
theorem Store.frame_lt_of_define {scope id : FrameId} {name : String} {v : Value} {u : Unit}
    (h : perform (·.define scope name v) s = .value u t) (hid : id.index < s.frames.size) :
    id.index < t.frames.size := by
  have hending := congrArg Outcome.ending? h
  rw [ending?_define] at hending
  split at hending
  · cases hending
  · cases hending
    rwa [Store.assign, Store.setFrame, Array.size_setIfInBounds]

/-- Definitions of a name by corresponding values agree. -/
theorem Parallel.define_agrees (h : Parallel host W s t) {scope : FrameId}
    (hscope : scope.index < s.frames.size) (name : String) {v w : Value}
    (hvw : W.Relates host v w) :
    OutcomesRelated (Parallel host) W (fun _ => Eq) (perform (·.define scope name v) s)
      (perform (·.define scope name w) t) := by
  simp only [perform, Store.define, (h.frames scope).bindings.contains_eq name]
  cases (t.frame scope).bindings.contains name with
  | true => exact .error _ s t
  | false => exact .value (.refl W) (h.assign hscope name hvw) rfl

/-- Statements that are executed in parallel stores print the same lines or fail alike, within every
depth. -/
theorem Parallel.executeAll_agrees (h : Parallel host W s t) {scope : FrameId}
    (hscope : scope.index < s.frames.size) {ss : List Statement}
    (hss : ∀ st ∈ ss, ∀ v ∈ st.expr.values, W.Relates host v v) (depth : Nat) :
    OutcomesRelated (Parallel host) W (fun _ => Eq) (executeAll host depth scope ss s)
      (executeAll host depth scope ss t) := by
  induction ss generalizing W s t with
  | nil => exact pure_agrees h rfl
  | cons st rest ih =>
    obtain ⟨hst, hrest⟩ := List.forall_mem_cons.1 hss
    have hrest' : ∀ {W'}, W.Le W' → ∀ st ∈ rest, ∀ v ∈ st.expr.values, W'.Relates host v v :=
      fun hW st hst v hv => (hrest st hst v hv).mono hW
    cases st with
    | define name e =>
      -- The value is bound in both stores or refused in both.
      refine (runsParallel_evaluate host depth h hscope hst).bind
        fun W₁ v w s₁ t₁ hW₁ h₁ hvw hs₁ _ => ?_
      have hscope₁ := ((grows_evaluate _ _ _ _).extends_of_value hs₁).frame_lt hscope
      refine (h₁.define_agrees hscope₁ name hvw).bind fun W₂ _ _ s₂ t₂ hW₂ h₂ _ hs₂ _ => ?_
      exact ih h₂ (Store.frame_lt_of_define hs₂ hscope₁) (hrest' (hW₁.trans hW₂))
    | print e =>
      refine (runsParallel_evaluate host depth h hscope hst).bind
        fun W₁ v w s₁ t₁ hW₁ h₁ hvw hs₁ _ => ?_
      have hscope₁ := ((grows_evaluate _ _ _ _).extends_of_value hs₁).frame_lt hscope
      refine (ih h₁ hscope₁ (hrest' hW₁)).bind fun W₂ lines lines' s₂ t₂ _ h₂ hlines _ _ => ?_
      exact pure_agrees h₂ (congrArg₂ List.cons (h₁.sim.text_eq hvw) hlines)

end ObjectLisp
