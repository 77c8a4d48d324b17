import ObjectLisp.Proofs.Store.Extension

/-!
# Stores with new bindings in one frame

`Store.Binds` says that a store has grown and that one frame of it has new bindings, and that all
else is as it was. The names are new to the frame, so none of its old bindings is hidden or lost.
Growth alone binds nothing, and one step of either kind after another adds up (`Binds.trans`).
-/

namespace ObjectLisp.Store

variable {s t u : Store} {scope : FrameId} {bs bs' : List (String × Value)}

/-- `t` has the frames, closures and objects of `s`, unchanged but for the bindings `bs` that are
new in the frame `scope`. -/
structure Binds (scope : FrameId) (bs : List (String × Value)) (s t : Store) : Prop where
  nodup : (bs.map (·.1)).Nodup
  new : ∀ name ∈ bs.map (·.1), (s.frame scope).bindings.get? name = none
  get? : ∀ name, (t.frame scope).bindings.get? name
    = ((s.frame scope).bindings.get? name).or (bs.lookup name)
  outer : (t.frame scope).outer = (s.frame scope).outer
  size : s.frames.size ≤ t.frames.size
  frames : ∀ (i : Nat) f, i ≠ scope.index → s.frames[i]? = some f → t.frames[i]? = some f
  closures : ∀ (i : Nat) c, s.closures[i]? = some c → t.closures[i]? = some c
  objects : ∀ (i : Nat) o, s.objects[i]? = some o → t.objects[i]? = some o

/-- Growth binds nothing in the frames that were there. -/
theorem Extends.binds (h : s.Extends t) (hscope : scope.index < s.frames.size) :
    Binds scope [] s t where
  nodup := List.nodup_nil
  new := by simp
  get? name := by rw [h.frame_eq hscope, List.lookup_nil, Option.or_none]
  outer := by rw [h.frame_eq hscope]
  size := by
    obtain ⟨frames, closures, objects, rfl⟩ := h.exists_append
    simp
  frames i f _ hf := h.frames i f hf
  closures := h.closures
  objects := h.objects

/-- The frame after an assignment. -/
theorem frame_assign (hscope : scope.index < s.frames.size) (name : String) (v : Value) :
    (s.assign scope name v).frame scope
      = { s.frame scope with bindings := (s.frame scope).bindings.insert name v } := by
  simp [assign, setFrame, frame, Array.getD_eq_getD_getElem?, hscope]

/-- An assignment leaves the other frames as they are. -/
theorem frame_assign_of_ne {id : FrameId} (h : id ≠ scope) (name : String) (v : Value) :
    (s.assign scope name v).frame id = s.frame id := by
  have hindex : scope.index ≠ id.index := fun heq => h (congrArg FrameId.mk heq.symm)
  simp only [assign, setFrame, frame, Array.getD_eq_getD_getElem?,
    Array.getElem?_setIfInBounds_ne hindex]

/-- An assignment to a new name binds it. -/
theorem binds_assign (hscope : scope.index < s.frames.size) {name : String}
    (hnew : (s.frame scope).bindings.contains name = false) (v : Value) :
    Binds scope [(name, v)] s (s.assign scope name v) where
  nodup := by simp
  new := by simpa [Dict.contains] using hnew
  get? x := by
    have hnone : (s.frame scope).bindings.get? name = none := by
      simpa [Dict.contains] using hnew
    rw [frame_assign hscope, Dict.get?_insert, Dict.lookup_cons]
    by_cases hx : x = name
    · rw [if_pos hx, if_pos hx, hx, hnone, Option.none_or]
    · rw [if_neg hx, if_neg hx, List.lookup_nil, Option.or_none]
  outer := by rw [frame_assign hscope]
  size := by simp [assign, setFrame]
  frames i f hi hf := by
    rw [assign, setFrame, Array.getElem?_setIfInBounds_ne (Ne.symm hi)]
    exact hf
  closures _ _ h := h
  objects _ _ h := h

namespace Binds

theorem refl (s : Store) (hscope : scope.index < s.frames.size) : Binds scope [] s s :=
  (Extends.refl s).binds hscope

/-- New bindings add up. -/
theorem trans (h : Binds scope bs s t) (h' : Binds scope bs' t u) :
    Binds scope (bs ++ bs') s u := by
  -- What is new after the first bindings is neither among them nor in the frame before them.
  have hnew : ∀ name ∈ bs'.map (·.1),
      (s.frame scope).bindings.get? name = none ∧ bs.lookup name = none := by
    intro name hname
    have hnone := h'.new name hname
    rwa [h.get?, Option.or_eq_none_iff] at hnone
  refine ⟨?_, ?_, fun name => ?_, h'.outer.trans h.outer, Nat.le_trans h.size h'.size, ?_, ?_, ?_⟩
  · rw [List.map_append, List.nodup_append]
    refine ⟨h.nodup, h'.nodup, fun name hname name' hname' => ?_⟩
    rintro rfl
    obtain ⟨⟨key, v⟩, hmem, rfl⟩ := List.mem_map.1 hname
    have hne := List.lookup_eq_none_iff.1 (hnew _ hname').2 _ hmem
    simp at hne
  · rw [List.map_append]
    intro name hname
    rcases List.mem_append.1 hname with hname | hname
    · exact h.new name hname
    · exact (hnew name hname).1
  · rw [h'.get?, h.get?, List.lookup_append, Option.or_assoc]
  · exact fun i f hi hf => h'.frames i f hi (h.frames i f hi hf)
  · exact fun i c hc => h'.closures i c (h.closures i c hc)
  · exact fun i o ho => h'.objects i o (h.objects i o ho)

/-- A binding stays. -/
theorem get?_eq_some (h : Binds scope bs s t) {name : String} {v : Value}
    (hv : (s.frame scope).bindings.get? name = some v) :
    (t.frame scope).bindings.get? name = some v := by
  rw [h.get?, hv, Option.some_or]

/-- A new binding is there. -/
theorem get?_eq_some_of_mem (h : Binds scope bs s t) {name : String} {v : Value}
    (hmem : (name, v) ∈ bs) : (t.frame scope).bindings.get? name = some v := by
  have hnone := h.new name (List.mem_map.2 ⟨_, hmem, rfl⟩)
  rw [h.get?, hnone, Option.none_or]
  exact Dict.lookup_eq_some_of_mem h.nodup hmem

theorem scope_lt (h : Binds scope bs s t) (hscope : scope.index < s.frames.size) :
    scope.index < t.frames.size :=
  Nat.lt_of_lt_of_le hscope h.size

end Binds

end ObjectLisp.Store
