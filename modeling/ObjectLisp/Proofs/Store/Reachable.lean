import ObjectLisp.Proofs.Eval.Calls
import ObjectLisp.Proofs.Eval.Trace
import ObjectLisp.Proofs.Scope.Nesting

/-!
# All stores there can be

`Store.Operation` lists what can be done with a store from outside: frames are made, names are bound
and changed, primitives are installed, objects are made and changed, and the evaluator is called. A
store is `Store.Reachable` if it comes out of the empty store by operations one after another.

Each operation keeps the store well-formed, and since a new frame is put inside one that is there
already, each keeps it nested. So all reachable stores are both.
-/

namespace ObjectLisp

variable {allowed : Primitive → Prop} {host : Host} {scope : FrameId} {s t : Store}

/-! ## What the evaluator leaves -/

/-- A valid value stays valid while the store goes on. -/
theorem Value.IsValid.steps {v : Value} (h : v.IsValid allowed s) (hst : s.Steps allowed t) :
    v.IsValid allowed t := by
  cases v with
  | number | bool | null | keyword => exact trivial
  | closure id =>
    exact (Array.getElem?_eq_some_iff.1 (hst.closures (Array.getElem?_eq_getElem h))).1
  | primitive p => exact h
  | object id =>
    exact (Array.getElem?_eq_some_iff.1 (hst.objects (Array.getElem?_eq_getElem h))).1

/-- The scope, and all values that the call is about, are of the store. -/
def Call.IsValid (allowed : Primitive → Prop) (s : Store) : Call → Prop
  | evaluate scope e => scope.index < s.frames.size ∧ e.IsValid allowed s
  | apply callee args => callee.IsValid allowed s ∧ ∀ v ∈ args, v.IsValid allowed s

/-- A valid call reaches a well-formed store by steps. -/
theorem Call.Leaves.steps {call : Call} (h : call.Leaves host s t) (hs : s.WellFormed allowed)
    (hcall : call.IsValid allowed s) : s.Steps allowed t ∧ t.WellFormed allowed := by
  obtain ⟨depth, h⟩ := h
  have htraced := runsTraced_evaluate allowed host depth
  have hvalid := runsValid_evaluate allowed host depth
  obtain ⟨hrun, hrunValid⟩ : (call.run host depth s).Traced allowed s
      ∧ (call.run host depth s).IsValid allowed fun t v => v.IsValid allowed t := by
    cases call with
    | evaluate scope e => exact ⟨htraced hs hcall.1 hcall.2, hvalid hs hcall.1 hcall.2⟩
    | apply callee args =>
      exact ⟨htraced.applyWith host hs hcall.1 hcall.2, hvalid.applyWith host hs hcall.1 hcall.2⟩
  cases hout : call.run host depth s <;> rw [hout] at h hrun hrunValid <;> cases h
  · exact ⟨hrun, hrunValid.1⟩
  · exact ⟨hrun.1, hrunValid⟩

/-- Statements that complete reach a well-formed store by steps. -/
theorem Completes.steps {ss : List Statement} {effects : List Effect}
    (h : Completes host scope ss s effects t) (hs : s.WellFormed allowed)
    (hscope : scope.index < s.frames.size) (hss : ∀ st ∈ ss, st.expr.IsValid allowed s) :
    s.Steps allowed t ∧ t.WellFormed allowed := by
  induction h with
  | nil s => exact ⟨.refl, hs⟩
  | @cons st rest effect effects s u t h _ ih =>
    obtain ⟨hst, hss⟩ := List.forall_mem_cons.1 hss
    obtain ⟨hsu, hu⟩ := h.steps hs hscope hst
    obtain ⟨hut, ht⟩ := ih hu ((h.binds hscope).scope_lt hscope) fun st hst v hv =>
      (hss st hst v hv).steps hsu
    exact ⟨hsu.trans hut, ht⟩

/-- So does an execution, whether it fails or not. -/
theorem Executes.steps {ss : List Statement} {r : Except RuntimeError (List String)}
    (h : Executes host scope ss s r t) (hs : s.WellFormed allowed)
    (hscope : scope.index < s.frames.size) (hss : ∀ st ∈ ss, st.expr.IsValid allowed s) :
    s.Steps allowed t ∧ t.WellFormed allowed := by
  rcases executes_iff.1 h with
    ⟨effects, hdone, -⟩ | ⟨done, st, rest, effects, u, err, rfl, hdone, hfail, -⟩
  · exact hdone.steps hs hscope hss
  · obtain ⟨hsu, hu⟩ := hdone.steps hs hscope fun st hst => hss st (List.mem_append_left _ hst)
    have hst : st.expr.IsValid allowed u := fun v hv => (hss st (by simp) v hv).steps hsu
    obtain ⟨hut, ht⟩ := hfail.steps hu ((hdone.binds hscope).scope_lt hscope) hst
    exact ⟨hsu.trans hut, ht⟩

/-! ## Operations -/

/-- One thing that can be done with a store from outside. The scopes and values that are handed in
are of the store. -/
inductive Store.Operation (host : Host) (s : Store) : Store → Prop
  | addRoot {bindings : List (String × Value)}
      (hbindings : ∀ e ∈ bindings, e.2.IsValid (fun _ => True) s) :
      Operation host s (s.addRoot (.ofList bindings)).2
  | extend {scope : FrameId} (hscope : scope.index < s.frames.size) (params : List String)
      {values : List Value} (hvalues : ∀ v ∈ values, v.IsValid (fun _ => True) s) :
      Operation host s (s.extend scope params values).2
  | define {scope : FrameId} (hscope : scope.index < s.frames.size) (name : String) {v : Value}
      (hv : v.IsValid (fun _ => True) s) : Operation host s (s.define scope name v).2
  | update {scope : FrameId} (hscope : scope.index < s.frames.size) (name : String) {v : Value}
      (hv : v.IsValid (fun _ => True) s) : Operation host s (s.update scope name v).2
  | install {scope : FrameId} (hscope : scope.index < s.frames.size) (r : Registry) :
      Operation host s (r.install scope s).2
  | call {call : Call} {t : Store} (hcall : call.IsValid (fun _ => True) s)
      (h : call.Leaves host s t) : Operation host s t
  | execute {scope : FrameId} {ss : List Statement} {r : Except RuntimeError (List String)}
      {t : Store} (hscope : scope.index < s.frames.size)
      (hss : ∀ st ∈ ss, st.expr.IsValid (fun _ => True) s) (h : Executes host scope ss s r t) :
      Operation host s t
  | addClosure {c : Closure} (hc : c.IsValid (fun _ => True) s) :
      Operation host s (s.addClosure c).2
  | addObject {o : Object} (ho : o.IsValid (fun _ => True) s) : Operation host s (s.addObject o).2
  | insertField (id : ObjectId) (name : String) {v : Value} (hv : v.IsValid (fun _ => True) s) :
      Operation host s (s.insertField id name v)
  | setPrototype (id : ObjectId) {v : Value} (hv : v.IsValid (fun _ => True) s) :
      Operation host s (s.setPrototype id v).2

/-- The store comes out of the empty one by operations. -/
def Store.Reachable (host : Host) (s : Store) : Prop :=
  Relation.ReflTransGen (Store.Operation host) .empty s

namespace Store

/-- Every step of a program keeps the store nested. -/
theorem Nested.step (hs : s.Nested) (hst : s.Step allowed t) : t.Nested := by
  cases hst with
  | frame houter => exact hs.addFrame houter
  | closure | object | kindOfAnimal => exact hs
  | binding id name v => exact hs.of_outer_eq (s.outer_assign id name v)

/-- Scopes stay nested while the store goes on. -/
theorem Nested.steps (hs : s.Nested) (hst : s.Steps allowed t) : t.Nested := by
  induction hst with
  | refl => exact hs
  | tail _ hstep ih => exact ih.step hstep

/-! ## Single operations -/

/-- A definition is one step, or none if it fails. -/
theorem steps_define (s : Store) (scope : FrameId) (name : String) (v : Value) :
    s.Steps allowed (s.define scope name v).2 := by
  unfold define
  split
  · exact .refl
  · exact .single (.binding _ _ _)

/-- An update is a step or changes nothing, and keeps the store well-formed. -/
theorem steps_update (hs : s.WellFormed allowed) (scope : FrameId) (name : String) {v : Value}
    (hv : v.IsValid allowed s) :
    s.Steps allowed (s.update scope name v).2 ∧ (s.update scope name v).2.WellFormed allowed := by
  unfold update
  split
  · exact ⟨.refl, hs⟩
  · exact ⟨.single (.binding _ _ _), hs.assign _ _ hv⟩

/-- So is a new scope. -/
theorem steps_extend (hs : s.WellFormed allowed) (hscope : scope.index < s.frames.size)
    (params : List String) {values : List Value} (hvalues : ∀ v ∈ values, v.IsValid allowed s) :
    s.Steps allowed (s.extend scope params values).2
      ∧ (s.extend scope params values).2.WellFormed allowed := by
  unfold extend
  split
  · exact ⟨.refl, hs⟩
  · next d hd =>
    refine ⟨.single (.frame ?_), hs.addFrame (Frame.isValid_of_bindParameters hd hvalues _)⟩
    rintro _ ⟨⟩
    exact hscope

/-- A row of definitions goes through steps, up to the first that fails. -/
theorem steps_defineAll (hs : s.WellFormed allowed) (scope : FrameId)
    {bs : List (String × Value)} (hbs : ∀ e ∈ bs, e.2.IsValid allowed s) :
    s.Steps allowed (Registry.defineAll scope bs s).2
      ∧ (Registry.defineAll scope bs s).2.WellFormed allowed := by
  induction bs generalizing s with
  | nil => exact ⟨.refl, hs⟩
  | cons e rest ih =>
    obtain ⟨name, v⟩ := e
    obtain ⟨hv, hrest⟩ := List.forall_mem_cons.1 hbs
    have hsteps : s.Steps allowed (s.define scope name v).2 := s.steps_define scope name v
    have ht := hs.define scope name hv
    rw [Registry.defineAll]
    split
    · next heq =>
      rw [heq] at hsteps ht
      exact ⟨hsteps, ht⟩
    · next heq =>
      rw [heq] at hsteps ht
      obtain ⟨hrestSteps, hend⟩ := ih ht fun e he => (hrest e he).steps hsteps
      exact ⟨hsteps.trans hrestSteps, hend⟩

/-- An object may be replaced by a valid one. -/
theorem WellFormed.setObject (hs : s.WellFormed allowed) (id : ObjectId) {o : Object}
    (ho : o.IsValid allowed s) : (s.setObject id o).WellFormed allowed := by
  have hsize : (s.setObject id o).objects.size = s.objects.size := Array.size_setIfInBounds
  have hvalid : ∀ v : Value, v.IsValid allowed s → v.IsValid allowed (s.setObject id o) := by
    intro v hv
    cases v with
    | object => exact Nat.lt_of_lt_of_eq hv hsize.symm
    | number | bool | null | keyword | closure | primitive => exact hv
  -- Whether a value is valid depends on the number of objects only, and that stays the same.
  refine ⟨fun f hf name v hv => ?_, fun c hc => ⟨?_, fun v hv => ?_⟩, fun a ha => ?_⟩
  · exact hvalid v (hs.frames f hf name v hv)
  · exact (hs.closures c hc).scope
  · exact hvalid v ((hs.closures c hc).body v hv)
  · have ha : a.IsValid allowed s := by
      rcases Array.mem_or_eq_of_mem_setIfInBounds ha with ha | rfl
      · exact hs.objects a ha
      · exact ho
    refine ⟨fun name v hv => hvalid v (ha.fields name v hv), fun x hx => ?_⟩
    exact Nat.lt_of_lt_of_eq (ha.prototype x hx) hsize.symm

/-- The object of every identity is valid. -/
theorem WellFormed.isValid_object (hs : s.WellFormed allowed) (id : ObjectId) :
    (s.object id).IsValid allowed s := by
  rw [object, Array.getD_eq_getD_getElem?]
  cases ho : s.objects[id.index]? with
  | none => exact Object.isValid_empty
  | some o => exact hs.objects o (Array.mem_of_getElem? ho)

/-- A change of prototype keeps the store well-formed. -/
theorem WellFormed.setPrototype (hs : s.WellFormed allowed) (id : ObjectId) {v : Value}
    (hv : v.IsValid allowed s) : (s.setPrototype id v).2.WellFormed allowed := by
  have hfields := (hs.isValid_object id).fields
  unfold Store.setPrototype
  split
  · exact hs.setObject id ⟨hfields, nofun⟩
  · refine hs.setObject id ⟨hfields, ?_⟩
    rintro _ ⟨⟩
    exact hv
  · exact hs

/-! ## Reachable stores -/

/-- An operation takes steps that a program could take too, or leaves all frames as they are. -/
theorem Operation.steps_or_frames_eq (h : s.Operation host t) (hs : s.WellFormed fun _ => True) :
    (s.Steps (fun _ => True) t ∨ t.frames = s.frames) ∧ t.WellFormed fun _ => True := by
  have hsteps : s.Steps (fun _ => True) t ∧ (t.WellFormed fun _ => True) →
      (s.Steps (fun _ => True) t ∨ t.frames = s.frames) ∧ t.WellFormed fun _ => True :=
    fun h => ⟨.inl h.1, h.2⟩
  cases h with
  | addRoot hbindings =>
    exact hsteps ⟨.single (.frame nofun), hs.addFrame (Frame.isValid_ofList hbindings none)⟩
  | extend hscope params hvalues => exact hsteps (steps_extend hs hscope params hvalues)
  | define hscope name hv => exact hsteps ⟨s.steps_define _ _ _, hs.define _ name hv⟩
  | update hscope name hv => exact hsteps (steps_update hs _ name hv)
  | install hscope r =>
    refine hsteps (steps_defineAll hs _ fun e he => ?_)
    obtain ⟨p, -, rfl⟩ := List.mem_map.1 he
    exact trivial
  | call hcall h => exact hsteps (h.steps hs hcall)
  | execute hscope hss h => exact hsteps (h.steps hs hscope hss)
  -- The last four touch closures and objects alone, and no frame.
  | addClosure hc => exact ⟨.inr rfl, hs.addClosure hc⟩
  | addObject ho => exact ⟨.inr rfl, hs.addObject ho⟩
  | insertField id name hv =>
    exact ⟨.inr rfl, hs.setObject id ((hs.isValid_object id).insert name hv)⟩
  | setPrototype id hv =>
    refine ⟨.inr ?_, hs.setPrototype id hv⟩
    unfold Store.setPrototype
    split <;> rfl

/-- Every operation keeps a well-formed, nested store well-formed and nested. -/
theorem Operation.keeps (h : s.Operation host t) (hs : s.WellFormed fun _ => True)
    (hnested : s.Nested) : (t.WellFormed fun _ => True) ∧ t.Nested := by
  obtain ⟨hsteps | hframes, ht⟩ := h.steps_or_frames_eq hs
  · exact ⟨ht, hnested.steps hsteps⟩
  · exact ⟨ht, hnested.of_outer_eq fun id => by rw [frame, frame, hframes]⟩

/-- A reachable store is well-formed, and its scopes are nested. -/
theorem Reachable.wellFormed_and_nested (h : s.Reachable host) :
    (s.WellFormed fun _ => True) ∧ s.Nested := by
  induction h with
  | refl => exact ⟨.empty, nofun⟩
  | tail _ hstep ih => exact hstep.keeps ih.1 ih.2

/-- The scopes of a reachable store are nested. -/
theorem Reachable.nested (h : s.Reachable host) : s.Nested := h.wellFormed_and_nested.2

end Store

end ObjectLisp
