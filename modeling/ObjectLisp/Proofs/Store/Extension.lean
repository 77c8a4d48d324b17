import ObjectLisp.Proofs.Dict
import ObjectLisp.Scope

/-!
# Stores that only grow

`Store.Extends` says that a store still has all frames, closures and objects of an earlier one, as
they were. A scope of the earlier store then has the same bindings in the later one, because all the
frames of its chain are there. The last part says what a new frame around parameters binds.
-/

namespace ObjectLisp.Store

variable {s t u : Store}

/-! ## Extension -/

/-- `t` has every frame, closure and object of `s`, unchanged and in its place. -/
structure Extends (s t : Store) : Prop where
  frames : ∀ (i : Nat) f, s.frames[i]? = some f → t.frames[i]? = some f
  closures : ∀ (i : Nat) c, s.closures[i]? = some c → t.closures[i]? = some c
  objects : ∀ (i : Nat) o, s.objects[i]? = some o → t.objects[i]? = some o

/-- A store extends itself. -/
theorem Extends.refl (s : Store) : s.Extends s :=
  ⟨fun _ _ h => h, fun _ _ h => h, fun _ _ h => h⟩

/-- Extensions can be put together. -/
theorem Extends.trans (h : s.Extends t) (h' : t.Extends u) : s.Extends u where
  frames i f hf := h'.frames i f (h.frames i f hf)
  closures i c hc := h'.closures i c (h.closures i c hc)
  objects i o ho := h'.objects i o (h.objects i o ho)

/-- What an array holds stays in its place when something is added at the end. -/
theorem getElem?_push_of_some {α : Type} {a : Array α} {i : Nat} {x y : α} (h : a[i]? = some x) :
    (a.push y)[i]? = some x := by
  obtain ⟨hi, rfl⟩ := Array.getElem?_eq_some_iff.1 h
  rw [Array.getElem?_push_lt hi]

/-- A frame more is an extension. -/
theorem extends_addFrame (s : Store) (f : Frame) : s.Extends (s.addFrame f).2 where
  frames _ _ h := getElem?_push_of_some h
  closures _ _ h := h
  objects _ _ h := h

/-- So is a closure more. -/
theorem extends_addClosure (s : Store) (c : Closure) : s.Extends (s.addClosure c).2 where
  frames _ _ h := h
  closures _ _ h := getElem?_push_of_some h
  objects _ _ h := h

/-- So is an object more. -/
theorem extends_addObject (s : Store) (o : Object) : s.Extends (s.addObject o).2 where
  frames _ _ h := h
  closures _ _ h := h
  objects _ _ h := getElem?_push_of_some h

/-- An array that holds everything of another one in its place is that one with more at the end. -/
theorem exists_append_of_getElem? {α : Type} {a b : Array α}
    (h : ∀ (i : Nat) x, a[i]? = some x → b[i]? = some x) : ∃ c : Array α, b = a ++ c := by
  have hprefix : a.toList <+: b.toList := by
    rw [List.prefix_iff_getElem?]
    intro i hi
    rw [Array.length_toList] at hi
    rw [Array.getElem?_toList, Array.getElem_toList]
    exact h i _ (Array.getElem?_eq_getElem hi)
  obtain ⟨l, hl⟩ := hprefix
  refine ⟨l.toArray, ?_⟩
  rw [← Array.toList_inj, Array.toList_append, hl]

/-- An extension is the store itself with more at the end. -/
theorem Extends.exists_append (h : s.Extends t) : ∃ frames closures objects,
    t = ⟨s.frames ++ frames, s.closures ++ closures, s.objects ++ objects⟩ := by
  obtain ⟨frames, closures, objects⟩ := t
  obtain ⟨fs, rfl⟩ := exists_append_of_getElem? h.frames
  obtain ⟨cs, rfl⟩ := exists_append_of_getElem? h.closures
  obtain ⟨os, rfl⟩ := exists_append_of_getElem? h.objects
  exact ⟨fs, cs, os, rfl⟩

/-- A frame of a store is one of any longer store. -/
theorem Extends.frame_lt (h : s.Extends t) {id : FrameId} (hid : id.index < s.frames.size) :
    id.index < t.frames.size :=
  (Array.getElem?_eq_some_iff.1 (h.frames _ _ (Array.getElem?_eq_getElem hid))).1

/-- A frame of a store is the same in every extension. -/
theorem Extends.frame_eq (h : s.Extends t) {id : FrameId} (hid : id.index < s.frames.size) :
    t.frame id = s.frame id := by
  have hs : s.frames[id.index]? = some s.frames[id.index] := Array.getElem?_eq_getElem hid
  rw [frame, frame, Array.getD_eq_getD_getElem?, Array.getD_eq_getD_getElem?, hs, h.frames _ _ hs]

/-- The frames after one more was added. -/
theorem frame_addFrame (s : Store) (f : Frame) (id : FrameId) :
    (s.addFrame f).2.frame id = if id.index = s.frames.size then f else s.frame id := by
  rw [addFrame, frame, frame, Array.getD_eq_getD_getElem?, Array.getD_eq_getD_getElem?,
    Array.getElem?_push]
  split <;> rfl

/-! ## Bindings along the chain -/

/-- A name has the value of the innermost frame, or else the one that the scope around it gives. -/
theorem get?_eq (s : Store) (scope : FrameId) (name : String) :
    s.get? scope name = ((s.frame scope).bindings.get? name).or
      (match (s.frame scope).outer with
        | none => none
        | some outer => if outer.index < scope.index then s.get? outer name else none) := by
  rw [get?, chain, List.findSome?_cons]
  cases (s.frame scope).bindings.get? name with
  | some v => rfl
  | none =>
    rw [Option.none_or]
    cases (s.frame scope).outer with
    | none => rfl
    | some outer =>
      -- The chain goes on to older frames only.
      by_cases h : outer.index < scope.index
      · simp only [if_pos h]
        rfl
      · simp only [if_neg h]
        rfl

/-- Growth of the store changes no binding of a scope that was there before. -/
theorem Extends.get?_eq (h : s.Extends t) {scope : FrameId} (hscope : scope.index < s.frames.size)
    (name : String) : t.get? scope name = s.get? scope name := by
  -- The induction goes outwards: the chain only follows links to older frames.
  induction hn : scope.index using Nat.strongRecOn generalizing scope with
  | ind n ih =>
    rw [Store.get?_eq t, Store.get?_eq s, h.frame_eq hscope]
    cases (s.frame scope).outer with
    | none => rfl
    | some outer =>
      by_cases hlt : outer.index < scope.index
      · simp only [if_pos hlt, ih outer.index (hn ▸ hlt) (Nat.lt_trans hlt hscope) rfl]
      · simp only [if_neg hlt]

/-- The bindings seen from a new frame: its own, and around them those of its scope. -/
theorem get?_addFrame {scope : FrameId} (hscope : scope.index < s.frames.size)
    (bindings : Dict Value) (name : String) :
    (s.addFrame ⟨bindings, some scope⟩).2.get? (s.addFrame ⟨bindings, some scope⟩).1 name
      = (bindings.get? name).or (s.get? scope name) := by
  have hframe : (s.addFrame ⟨bindings, some scope⟩).2.frame (s.addFrame ⟨bindings, some scope⟩).1
      = ⟨bindings, some scope⟩ := by
    simp [addFrame, frame, Array.getD_eq_getD_getElem?]
  have houter : scope.index < (s.addFrame ⟨bindings, some scope⟩).1.index := hscope
  rw [get?_eq, hframe]
  simp only [if_pos houter, (extends_addFrame s _).get?_eq hscope]

/-! ## Parameters -/

/-- Bindings added one after another are found beside those that were there. -/
theorem get?_of_bindAll {l : List (String × Value)} {d d' : Dict Value}
    (h : bindAll l d = .ok d') (name : String) :
    d'.get? name = (d.get? name).or (l.lookup name) := by
  induction l generalizing d with
  | nil =>
    cases h
    rw [List.lookup_nil, Option.or_none]
  | cons e rest ih =>
    obtain ⟨key, v⟩ := e
    rw [bindAll] at h
    split at h
    · nomatch h
    · next hnew =>
      have hkey : d.get? key = none := by simpa [Dict.contains] using hnew
      rw [ih h, Dict.get?_insert, Dict.lookup_cons]
      -- A name bound here was new, so neither the dictionary nor the rest had it.
      by_cases hname : name = key
      · subst hname
        rw [if_pos rfl, hkey, if_pos rfl, Option.some_or, Option.none_or]
      · rw [if_neg hname, if_neg hname]

/-- Different names that are all new can be bound. -/
theorem exists_bindAll {l : List (String × Value)} {d : Dict Value}
    (hnodup : (l.map (·.1)).Nodup) (hnew : ∀ name ∈ l.map (·.1), d.get? name = none) :
    ∃ d', bindAll l d = .ok d' := by
  induction l generalizing d with
  | nil => exact ⟨d, rfl⟩
  | cons e rest ih =>
    obtain ⟨key, v⟩ := e
    obtain ⟨hkey, hnodup⟩ := List.nodup_cons.1 hnodup
    have hfree : ¬ d.contains key = true := by
      simp [Dict.contains, hnew key List.mem_cons_self]
    rw [bindAll, if_neg hfree]
    refine ih hnodup fun name hname => ?_
    have hne : name ≠ key := fun h => hkey (h ▸ hname)
    rw [Dict.get?_insert, if_neg hne]
    exact hnew name (List.mem_cons_of_mem _ hname)

/-- Parameters are bound to the values in their places. -/
theorem get?_of_bindParameters {params : List String} {values : List Value} {d : Dict Value}
    (h : bindParameters params values = .ok d) (name : String) :
    d.get? name = (params.zip values).lookup name := by
  rw [bindParameters] at h
  split at h
  · nomatch h
  · rw [get?_of_bindAll h, Dict.get?_empty, Option.none_or]

/-- Parameters that were bound are as many as the values. -/
theorem length_eq_of_bindParameters {params : List String} {values : List Value} {d : Dict Value}
    (h : bindParameters params values = .ok d) : params.length = values.length := by
  rw [bindParameters] at h
  split at h
  · nomatch h
  · next hlength => exact Decidable.not_not.1 hlength

/-- Different parameters can be bound to as many values. -/
theorem exists_bindParameters {params : List String} {values : List Value}
    (hlength : params.length = values.length) (hnodup : params.Nodup) :
    ∃ d, bindParameters params values = .ok d := by
  have hnames : (params.zip values).map (·.1) = params := List.map_fst_zip (Nat.le_of_eq hlength)
  rw [bindParameters, if_neg (not_not_intro hlength)]
  exact exists_bindAll (hnames.symm ▸ hnodup) fun _ _ => rfl

/-- Exactly the parameters have values. -/
theorem lookup_zip_eq_none_iff {params : List String} {values : List Value}
    (hlength : params.length = values.length) {name : String} :
    (params.zip values).lookup name = none ↔ name ∉ params := by
  have hnames : (params.zip values).map (·.1) = params := List.map_fst_zip (Nat.le_of_eq hlength)
  rw [List.lookup_eq_none_iff]
  constructor
  · intro h hmem
    rw [← hnames] at hmem
    obtain ⟨e, he, rfl⟩ := List.mem_map.1 hmem
    simpa using h e he
  · intro h e he
    have hmem : e.1 ∈ params := hnames ▸ List.mem_map_of_mem he
    have hne : name ≠ e.1 := fun heq => h (heq ▸ hmem)
    simpa using hne

end ObjectLisp.Store
