import ObjectLisp.Proofs.Expr.Substitution
import ObjectLisp.Proofs.Store.Extension

/-!
# Well-formed stores

In a well-formed store every value that is bound, held by the body of a closure or kept in a field
names a closure or an object of the store, every closure has a scope of the store, and every
primitive is one of those that are allowed. Adding to a well-formed store, or binding a name in it,
keeps it well-formed as long as what is added refers only to what is there.
-/

namespace ObjectLisp

/-! ## Validity -/

/-- What the value names is in the store, and a primitive is allowed. -/
def Value.IsValid (allowed : Primitive → Prop) (s : Store) : Value → Prop
  | .closure id => id.index < s.closures.size
  | .object id => id.index < s.objects.size
  | .primitive p => allowed p
  | _ => True

/-- All values that the expression holds are valid. -/
def Expr.IsValid (allowed : Primitive → Prop) (s : Store) (e : Expr) : Prop :=
  ∀ v ∈ e.values, v.IsValid allowed s

/-- All bindings of the frame are valid. -/
def Frame.IsValid (allowed : Primitive → Prop) (s : Store) (f : Frame) : Prop :=
  ∀ name v, f.bindings.get? name = some v → v.IsValid allowed s

/-- The scope of the closure is in the store, and its body is valid. -/
structure Closure.IsValid (allowed : Primitive → Prop) (s : Store) (c : Closure) : Prop where
  scope : c.scope.index < s.frames.size
  body : c.body.IsValid allowed s

/-- All fields of the object are valid, and its prototype is in the store. -/
structure Object.IsValid (allowed : Primitive → Prop) (s : Store) (o : Object) : Prop where
  fields : ∀ name v, o.fields.get? name = some v → v.IsValid allowed s
  prototype : ∀ id, o.prototype = some id → id.index < s.objects.size

/-- All that the store refers to is in the store, and all its primitives are allowed. -/
structure Store.WellFormed (allowed : Primitive → Prop) (s : Store) : Prop where
  frames : ∀ f ∈ s.frames, f.IsValid allowed s
  closures : ∀ c ∈ s.closures, c.IsValid allowed s
  objects : ∀ o ∈ s.objects, o.IsValid allowed s

variable {allowed : Primitive → Prop} {s t : Store}

/-! ## Growth -/

/-- An object of a store is one of any longer store. -/
theorem Store.Extends.object_lt (h : s.Extends t) {id : ObjectId}
    (hid : id.index < s.objects.size) : id.index < t.objects.size :=
  (Array.getElem?_eq_some_iff.1 (h.objects _ _ (Array.getElem?_eq_getElem hid))).1

/-- A value stays valid when the store grows. -/
theorem Value.IsValid.mono {v : Value} (h : v.IsValid allowed s) (hst : s.Extends t) :
    v.IsValid allowed t := by
  cases v with
  | number | bool | null | keyword => exact trivial
  | closure id =>
    exact (Array.getElem?_eq_some_iff.1 (hst.closures _ _ (Array.getElem?_eq_getElem h))).1
  | primitive p => exact h
  | object id => exact hst.object_lt h

/-- A valid expression stays valid in a longer store. -/
theorem Expr.IsValid.mono {e : Expr} (h : e.IsValid allowed s) (hst : s.Extends t) :
    e.IsValid allowed t :=
  fun v hv => (h v hv).mono hst

/-- An expression that holds no values holds only valid ones. -/
theorem Expr.isValid_of_values_eq_nil {e : Expr} (h : e.values = []) : e.IsValid allowed s := by
  intro v hv
  rw [h] at hv
  nomatch hv

/-- So does a frame. -/
theorem Frame.IsValid.mono {f : Frame} (h : f.IsValid allowed s) (hst : s.Extends t) :
    f.IsValid allowed t :=
  fun name v hv => (h name v hv).mono hst

/-- So does a closure. -/
theorem Closure.IsValid.mono {c : Closure} (h : c.IsValid allowed s) (hst : s.Extends t) :
    c.IsValid allowed t :=
  ⟨hst.frame_lt h.scope, h.body.mono hst⟩

/-- So does an object. -/
theorem Object.IsValid.mono {o : Object} (h : o.IsValid allowed s) (hst : s.Extends t) :
    o.IsValid allowed t :=
  ⟨fun name v hv => (h.fields name v hv).mono hst, fun id hid => hst.object_lt (h.prototype id hid)⟩

/-- A frame of valid values is valid. -/
theorem Frame.isValid_ofList {l : List (String × Value)} (h : ∀ e ∈ l, e.2.IsValid allowed s)
    (outer : Option FrameId) : Frame.IsValid allowed s ⟨Dict.ofList l, outer⟩ :=
  fun _ _ hv => h _ (Dict.mem_of_get?_ofList hv)

/-- A frame that binds parameters to valid values is valid. -/
theorem Frame.isValid_of_bindParameters {params : List String} {values : List Value}
    {d : Dict Value} (hd : Store.bindParameters params values = .ok d)
    (hvalues : ∀ v ∈ values, v.IsValid allowed s) (outer : Option FrameId) :
    Frame.IsValid allowed s ⟨d, outer⟩ := by
  intro name v hv
  rw [Store.get?_of_bindParameters hd] at hv
  exact hvalues v (List.of_mem_zip (Dict.mem_of_lookup hv)).2

namespace Store

namespace WellFormed

/-- The empty store is well-formed. -/
theorem empty : Store.empty.WellFormed allowed where
  frames f h := absurd h (Array.not_mem_empty f)
  closures c h := absurd h (Array.not_mem_empty c)
  objects o h := absurd h (Array.not_mem_empty o)

/-- A valid frame may be added. -/
theorem addFrame (h : s.WellFormed allowed) {f : Frame} (hf : f.IsValid allowed s) :
    (s.addFrame f).2.WellFormed allowed := by
  have hext := s.extends_addFrame f
  refine ⟨Array.forall_mem_push.2 ⟨hf.mono hext, fun g hg => ?_⟩, fun c hc => ?_, fun o ho => ?_⟩
  · exact (h.frames g hg).mono hext
  · exact (h.closures c hc).mono hext
  · exact (h.objects o ho).mono hext

/-- A valid closure may be added. -/
theorem addClosure (h : s.WellFormed allowed) {c : Closure} (hc : c.IsValid allowed s) :
    (s.addClosure c).2.WellFormed allowed := by
  have hext := s.extends_addClosure c
  refine ⟨fun f hf => ?_, Array.forall_mem_push.2 ⟨hc.mono hext, fun d hd => ?_⟩, fun o ho => ?_⟩
  · exact (h.frames f hf).mono hext
  · exact (h.closures d hd).mono hext
  · exact (h.objects o ho).mono hext

/-- A valid object may be added. -/
theorem addObject (h : s.WellFormed allowed) {o : Object} (ho : o.IsValid allowed s) :
    (s.addObject o).2.WellFormed allowed := by
  have hext := s.extends_addObject o
  refine ⟨fun f hf => ?_, fun c hc => ?_, Array.forall_mem_push.2 ⟨ho.mono hext, fun a ha => ?_⟩⟩
  · exact (h.frames f hf).mono hext
  · exact (h.closures c hc).mono hext
  · exact (h.objects a ha).mono hext

/-! ## Bindings -/

/-- The frame of every identity is valid. -/
theorem isValid_frame (h : s.WellFormed allowed) (id : FrameId) :
    (s.frame id).IsValid allowed s := by
  by_cases hid : id.index < s.frames.size
  · rw [frame, Array.getD_eq_getD_getElem?, Array.getElem?_eq_getElem hid]
    exact h.frames _ (Array.getElem_mem hid)
  · rw [frame, Array.getD_eq_getD_getElem?, Array.getElem?_eq_none (Nat.le_of_not_lt hid)]
    intro name v hv
    cases hv

/-- The closure of an identity that belongs to one is valid. -/
theorem isValid_closure (h : s.WellFormed allowed) {id : ClosureId}
    (hid : id.index < s.closures.size) : (s.closure id).IsValid allowed s := by
  rw [closure, Array.getD_eq_getD_getElem?, Array.getElem?_eq_getElem hid]
  exact h.closures _ (Array.getElem_mem hid)

/-- Every value that a scope gives to a name is valid. -/
theorem isValid_get? (h : s.WellFormed allowed) {scope : FrameId} {name : String} {v : Value}
    (hv : s.get? scope name = some v) : v.IsValid allowed s := by
  induction hn : scope.index using Nat.strongRecOn generalizing scope with
  | ind n ih =>
    rw [get?_eq, Option.or_eq_some_iff] at hv
    rcases hv with hv | ⟨-, hv⟩
    · exact h.isValid_frame scope name v hv
    · cases houter : (s.frame scope).outer with
      | none =>
        rw [houter] at hv
        nomatch hv
      | some outer =>
        simp only [houter] at hv
        split at hv
        · next hlt => exact ih outer.index (hn ▸ hlt) hv rfl
        · nomatch hv

/-- A frame may be replaced by a valid one. -/
theorem setFrame (h : s.WellFormed allowed) (id : FrameId) {f : Frame}
    (hf : f.IsValid allowed s) : (s.setFrame id f).WellFormed allowed := by
  have hvalid : ∀ v : Value, v.IsValid allowed s → v.IsValid allowed (s.setFrame id f) := by
    intro v hv
    cases v <;> exact hv
  refine ⟨fun g hg name v hv => ?_, fun c hc => ⟨?_, fun v hv => ?_⟩, fun o ho => ⟨?_, ?_⟩⟩
  · rcases Array.mem_or_eq_of_mem_setIfInBounds hg with hg | rfl
    · exact hvalid v (h.frames g hg name v hv)
    · exact hvalid v (hf name v hv)
  · rw [Store.setFrame, Array.size_setIfInBounds]
    exact (h.closures c hc).scope
  · exact hvalid v ((h.closures c hc).body v hv)
  · exact fun name v hv => hvalid v ((h.objects o ho).fields name v hv)
  · exact (h.objects o ho).prototype

/-- A name may be bound to a valid value. -/
theorem assign (h : s.WellFormed allowed) (id : FrameId) (name : String) {v : Value}
    (hv : v.IsValid allowed s) : (s.assign id name v).WellFormed allowed := by
  refine h.setFrame id fun x w hw => ?_
  rw [Dict.get?_insert] at hw
  split at hw
  · cases hw
    exact hv
  · exact h.isValid_frame id x w hw

end WellFormed

end Store

end ObjectLisp
