import ObjectLisp.Proofs.Scope.Definition

/-!
# Registration and installation

A registry has the last primitive of each name, and lists the names in order. Installation binds
them in this order in a frame, so it stops at the least name that the frame has already
(`IsFirstClash`). The smaller names stay bound then, and no binding of the frame is replaced.

In a new frame nothing clashes, and the bindings are those of a frame that is made of the primitives
at once, in whatever order they are listed.
-/

namespace ObjectLisp

variable {s : Store} {scope : FrameId} {r : Registry} {name : String}

/-! ## Registration -/

namespace Registry

/-- A primitive that is registered is found under its name, and nothing else changes. -/
theorem get?_register (r : Registry) (p : Primitive) (name : String) :
    (r.register p).get? name = if name = p.name then some p else r.get? name :=
  Dict.get?_insert ..

/-- The last of the registered primitives of a name is found, and else the one that was there. -/
theorem get?_registerAll (r : Registry) (ps : List Primitive) (name : String) :
    (r.registerAll ps).get? name = (ps.reverse.find? (·.name = name)).or (r.get? name) := by
  induction ps generalizing r with
  | nil => rfl
  | cons p ps ih =>
    have hfirst : (r.register p).get? name = ([p].find? (·.name = name)).or (r.get? name) := by
      rw [get?_register]
      by_cases h : name = p.name
      · simp [h]
      · simp [h, Ne.symm h]
    calc (r.registerAll (p :: ps)).get? name
        = (ps.reverse.find? (·.name = name)).or ((r.register p).get? name) := ih _
      _ = ((p :: ps).reverse.find? (·.name = name)).or (r.get? name) := by
          rw [hfirst, ← Option.or_assoc, ← List.find?_append, List.reverse_cons]

/-! ## Bindings -/

/-- The bindings of a registry have its names. -/
theorem names_bindings (r : Registry) : r.bindings.map (·.1) = r.names := by
  rw [bindings, List.map_map]
  rfl

/-- They are in increasing order. -/
theorem sorted_bindings (r : Registry) : r.bindings.Pairwise fun a b => a.1 < b.1 :=
  List.pairwise_map.2 r.primitives.sorted

/-- So no name comes twice. -/
theorem nodup_names_bindings (r : Registry) : (r.bindings.map (·.1)).Nodup :=
  r.names_bindings ▸ r.primitives.nodup_names

/-- Each primitive is bound under its name. -/
theorem lookup_bindings (r : Registry) (name : String) :
    r.bindings.lookup name = (r.get? name).map .primitive := by
  rw [bindings, get?, Dict.get?]
  induction r.primitives.entries with
  | nil => rfl
  | cons e rest ih =>
    rw [List.map_cons, Dict.lookup_cons, ih, ← Prod.eta e, Dict.lookup_cons]
    split <;> rfl

end Registry

/-! ## Frames with other bindings -/

namespace Store

/-- Replace the bindings of a frame, and nothing else. -/
def setBindings (s : Store) (scope : FrameId) (d : Dict Value) : Store :=
  s.setFrame scope { s.frame scope with bindings := d }

/-- Writing the bindings that a frame has changes nothing. -/
theorem setBindings_self (hscope : scope.index < s.frames.size) :
    s.setBindings scope (s.frame scope).bindings = s := by
  have hframe : s.frame scope = s.frames[scope.index] := by simp [frame, hscope]
  have hframes : s.frames.setIfInBounds scope.index (s.frame scope) = s.frames :=
    Array.toList_inj.1 (by simp [hframe, ← Array.getElem_toList])
  exact congrArg (fun frames => { s with frames := frames }) hframes

/-- The bindings written to a frame are read back. -/
theorem bindings_setBindings (hscope : scope.index < s.frames.size) (d : Dict Value) :
    ((s.setBindings scope d).frame scope).bindings = d := by
  simp [setBindings, setFrame, frame, hscope]

/-- The last bindings written to a frame stay. -/
theorem setBindings_setBindings (hscope : scope.index < s.frames.size) (d e : Dict Value) :
    (s.setBindings scope d).setBindings scope e = s.setBindings scope e := by
  simp [setBindings, setFrame, frame, hscope]

/-- No frame is added by a write. -/
theorem size_setBindings (s : Store) (scope : FrameId) (d : Dict Value) :
    (s.setBindings scope d).frames.size = s.frames.size :=
  Array.size_setIfInBounds

/-- To replace a new frame is to have added the other one. -/
theorem setFrame_addFrame_self (s : Store) (f g : Frame) :
    (s.addFrame f).2.setFrame (s.addFrame f).1 g = (s.addFrame g).2 := by
  have hframes : (s.frames.push f).setIfInBounds s.frames.size g = s.frames.push g :=
    Array.toList_inj.1 (by simp)
  exact congrArg (fun frames => { s with frames := frames }) hframes

end Store

/-! ## Installation -/

namespace Registry

variable {l before after : List (String × Value)}

/-- Two lists are defined one after the other; what fails in the first one fails as a whole. -/
theorem defineAll_append (scope : FrameId) (l l' : List (String × Value)) (s : Store) :
    defineAll scope (l ++ l') s
      = match defineAll scope l s with
        | (.ok (), t) => defineAll scope l' t
        | (.error e, t) => (.error e, t) := by
  induction l generalizing s with
  | nil => rfl
  | cons e rest ih =>
    rw [List.cons_append, defineAll, defineAll]
    split
    · rfl
    · exact ih _

/-- Different names that the frame does not bind are all bound. -/
theorem defineAll_of_free (hscope : scope.index < s.frames.size) (hnodup : (l.map (·.1)).Nodup)
    (hfree : ∀ e ∈ l, (s.frame scope).bindings.contains e.1 = false) :
    defineAll scope l s
      = (.ok (), s.setBindings scope ((s.frame scope).bindings.insertAll l)) := by
  induction l generalizing s with
  | nil => exact congrArg _ (Store.setBindings_self hscope).symm
  | cons e rest ih =>
    obtain ⟨key, v⟩ := e
    obtain ⟨hkey, hnodup⟩ := List.nodup_cons.1 hnodup
    obtain ⟨hkeyfree, hfree⟩ := List.forall_mem_cons.1 hfree
    rcases s.define_cases scope key v with ⟨htaken, -⟩ | ⟨-, hdefine⟩
    · exact absurd (htaken.symm.trans hkeyfree) nofun
    have hassign : s.assign scope key v
        = s.setBindings scope ((s.frame scope).bindings.insert key v) := rfl
    rw [defineAll, hdefine, hassign]
    show defineAll scope rest _ = _
    rw [ih]
    · rw [Store.bindings_setBindings hscope, Store.setBindings_setBindings hscope]
      rfl
    · rw [Store.size_setBindings]
      exact hscope
    · exact hnodup
    · -- The name just bound is none of those that are left.
      intro e he
      have hne : e.1 ≠ key := fun heq => hkey (List.mem_map.2 ⟨e, he, heq⟩)
      rw [Store.bindings_setBindings hscope, Dict.contains_insert, hfree e he, decide_eq_false hne]
      rfl

/-- At the first name that the frame binds, the names before it have been bound. -/
theorem defineAll_of_taken (hscope : scope.index < s.frames.size)
    (hnodup : (before.map (·.1)).Nodup)
    (hfree : ∀ e ∈ before, (s.frame scope).bindings.contains e.1 = false)
    (htaken : (s.frame scope).bindings.contains name = true) (v : Value) :
    defineAll scope (before ++ (name, v) :: after) s
      = (.error (.redefinition name),
        s.setBindings scope ((s.frame scope).bindings.insertAll before)) := by
  have hstill : ((s.frame scope).bindings.insertAll before).contains name = true := by
    rw [Dict.contains, Dict.get?_insertAll hnodup, Option.isSome_or]
    exact Bool.or_eq_true_iff.2 (.inr htaken)
  rw [defineAll_append, defineAll_of_free hscope hnodup hfree]
  show defineAll scope ((name, v) :: after) _ = _
  rw [defineAll, Store.define, Store.bindings_setBindings hscope, if_pos hstill]

/-- Both the registry and the frame have the name. -/
def Clashes (r : Registry) (scope : FrameId) (s : Store) (name : String) : Prop :=
  r.contains name = true ∧ (s.frame scope).bindings.contains name = true

/-- The least name that both the registry and the frame have. -/
structure IsFirstClash (r : Registry) (scope : FrameId) (s : Store) (name : String) : Prop where
  clashes : r.Clashes scope s name
  least : ∀ other, r.Clashes scope s other → name ≤ other

/-- A name bound by a registry is one of its names. -/
theorem contains_of_mem_bindings {e : String × Value} (h : e ∈ r.bindings) :
    r.contains e.1 = true := by
  have hmem : e.1 ∈ r.names := r.names_bindings ▸ List.mem_map_of_mem h
  exact Dict.mem_names_iff.1 hmem

/-- A name of a registry is bound by it. -/
theorem exists_mem_bindings (h : r.contains name = true) : ∃ v, (name, v) ∈ r.bindings := by
  have hmem : name ∈ r.bindings.map (·.1) := r.names_bindings.symm ▸ Dict.mem_names_iff.2 h
  obtain ⟨⟨_, v⟩, hv, rfl⟩ := List.mem_map.1 hmem
  exact ⟨v, hv⟩

/-- Without a clash all primitives are bound. -/
theorem install_of_not_clashes (hscope : scope.index < s.frames.size)
    (h : ∀ name, ¬ r.Clashes scope s name) :
    ∃ d, r.install scope s = (.ok (), s.setBindings scope d)
      ∧ ∀ x, d.get? x = ((s.frame scope).bindings.get? x).or ((r.get? x).map .primitive) := by
  have hfree : ∀ e ∈ r.bindings, (s.frame scope).bindings.contains e.1 = false := fun e he =>
    Bool.eq_false_iff.2 fun htaken => h e.1 ⟨contains_of_mem_bindings he, htaken⟩
  refine ⟨_, defineAll_of_free hscope r.nodup_names_bindings hfree, fun x => ?_⟩
  rw [Dict.get?_insertAll_of_free r.nodup_names_bindings hfree, lookup_bindings]

/-- The first binding, in order, of a name that the frame has is the first clash. -/
theorem isFirstClash_of_bindings {v : Value} (hsplit : r.bindings = before ++ (name, v) :: after)
    (hfree : ∀ e ∈ before, (s.frame scope).bindings.contains e.1 = false)
    (htaken : (s.frame scope).bindings.contains name = true) : r.IsFirstClash scope s name where
  clashes := by
    have hmem : (name, v) ∈ r.bindings := hsplit ▸ List.mem_append_right before List.mem_cons_self
    exact ⟨contains_of_mem_bindings hmem, htaken⟩
  least := by
    rintro other ⟨hcontains, hother⟩
    obtain ⟨w, hw⟩ := exists_mem_bindings hcontains
    rw [hsplit, List.mem_append, List.mem_cons] at hw
    rcases hw with hw | hw | hw
    · exact absurd (hother.symm.trans (hfree _ hw)) nofun
    · cases hw
      exact String.le_refl _
    · obtain ⟨-, hrest, -⟩ := List.pairwise_append.1 (hsplit ▸ r.sorted_bindings)
      have hlt : name < other := (List.pairwise_cons.1 hrest).1 _ hw
      exact String.not_lt.1 (String.lt_asymm hlt)

/-- Up to the first clash all primitives are bound. -/
theorem install_of_clashes (hscope : scope.index < s.frames.size)
    (h : ∃ name, r.Clashes scope s name) :
    ∃ name d, r.IsFirstClash scope s name
      ∧ r.install scope s = (.error (.redefinition name), s.setBindings scope d)
      ∧ ∀ x, d.get? x = ((s.frame scope).bindings.get? x).or
        (if x < name then (r.get? x).map .primitive else none) := by
  -- Only the first clash ends the installation, so the bindings are split there.
  obtain ⟨other, hcontains, hother⟩ := h
  obtain ⟨w, hw⟩ := exists_mem_bindings hcontains
  obtain ⟨⟨name, v⟩, hfind⟩ : ∃ e,
      r.bindings.find? (fun e => (s.frame scope).bindings.contains e.1) = some e :=
    Option.isSome_iff_exists.1 (List.find?_isSome.2 ⟨_, hw, hother⟩)
  obtain ⟨htaken, before, after, hsplit, hbefore⟩ := List.find?_eq_some_iff_append.1 hfind
  have hfree : ∀ e ∈ before, (s.frame scope).bindings.contains e.1 = false := by simpa using hbefore
  have hnodup : (before.map (·.1)).Nodup := by
    have hall := hsplit ▸ r.nodup_names_bindings
    rw [List.map_append] at hall
    exact (List.nodup_append.1 hall).1
  refine ⟨name, (s.frame scope).bindings.insertAll before,
    isFirstClash_of_bindings hsplit hfree htaken, ?_, fun x => ?_⟩
  · rw [install, hsplit]
    exact defineAll_of_taken hscope hnodup hfree htaken v
  · rw [Dict.get?_insertAll_of_free hnodup hfree, Dict.lookup_before (hsplit ▸ r.sorted_bindings),
      ← hsplit, lookup_bindings]

/-! ## New frames -/

/-- The order in which bindings are listed does not matter to a dictionary made of them. -/
theorem ofList_eq_of_perm (h : l.Perm r.bindings) : Dict.ofList l = Dict.ofList r.bindings := by
  have hnodup : (l.map (·.1)).Nodup := (h.map _).nodup_iff.2 r.nodup_names_bindings
  refine Dict.ext_get? fun name => ?_
  rw [Dict.get?_ofList hnodup, Dict.get?_ofList r.nodup_names_bindings]
  refine Option.ext fun v => ⟨fun hv => ?_, fun hv => ?_⟩
  · exact Dict.lookup_eq_some_of_mem r.nodup_names_bindings (h.mem_iff.1 (Dict.mem_of_lookup hv))
  · exact Dict.lookup_eq_some_of_mem hnodup (h.mem_iff.2 (Dict.mem_of_lookup hv))

/-- Installation in a new frame gives the frame of all primitives. -/
theorem install_addRoot (r : Registry) (s : Store) :
    r.install (s.addRoot ∅).1 (s.addRoot ∅).2 = (.ok (), (r.rootFrame s).2) := by
  have hframe : (s.addRoot ∅).2.frame (s.addRoot ∅).1 = ⟨∅, none⟩ := s.frame_addFrame_self _
  have hscope : (s.addRoot ∅).1.index < (s.addRoot ∅).2.frames.size := by
    simp [Store.addRoot, Store.addFrame]
  have hfree : ∀ e ∈ r.bindings,
      ((s.addRoot ∅).2.frame (s.addRoot ∅).1).bindings.contains e.1 = false := by
    intro e _
    rw [hframe]
    rfl
  rw [install, defineAll_of_free hscope r.nodup_names_bindings hfree, Store.setBindings, hframe]
  exact congrArg (Prod.mk _) (s.setFrame_addFrame_self _ _)

/-! ## The laws -/

/-- A registry has the last primitive that was registered under each name, and each of its names
once, in order. If the frame has none of the names, they are all bound, and its old bindings stay;
else installation fails at the least of those that it has, and of the registry exactly the smaller
names are bound. Nothing else in the store changes. A new frame has the same bindings as one that is
made of the primitives in any order. -/
theorem install_laws :
    (∀ ps name, (empty.registerAll ps).get? name = ps.reverse.find? (·.name = name))
    ∧ (∀ r : Registry, r.names.Pairwise (· < ·) ∧ r.names.length = r.size
      ∧ ∀ name, name ∈ r.names ↔ ∃ p, r.get? name = some p)
    ∧ (∀ (r : Registry) s scope, scope.index < s.frames.size →
      ((∀ name, ¬ r.Clashes scope s name) →
        ∃ d, r.install scope s = (.ok (), s.setBindings scope d)
          ∧ ∀ x, d.get? x = ((s.frame scope).bindings.get? x).or ((r.get? x).map .primitive))
      ∧ ((∃ name, r.Clashes scope s name) →
        ∃ name d, r.IsFirstClash scope s name
          ∧ r.install scope s = (.error (.redefinition name), s.setBindings scope d)
          ∧ ∀ x, d.get? x = ((s.frame scope).bindings.get? x).or
            (if x < name then (r.get? x).map .primitive else none)))
    ∧ ∀ (r : Registry) s,
      r.install (s.addRoot ∅).1 (s.addRoot ∅).2 = (.ok (), (r.rootFrame s).2)
      ∧ (r.rootFrame s).1 = (s.addRoot ∅).1
      ∧ ∀ l, l.Perm r.bindings → s.addRoot (Dict.ofList l) = r.rootFrame s := by
  -- The sorted names are those of the dictionary; what the two installations do is proved above.
  refine ⟨fun ps name => ?_,
    fun r => ⟨r.primitives.pairwise_names, List.length_map _, fun name => ?_⟩,
    fun r s scope hscope => ⟨install_of_not_clashes hscope, install_of_clashes hscope⟩,
    fun r s => ⟨r.install_addRoot s, rfl, fun l hl => ?_⟩⟩
  · exact (get?_registerAll empty ps name).trans Option.or_none
  · exact Dict.mem_names_iff.trans Option.isSome_iff_exists
  · rw [rootFrame, ofList_eq_of_perm hl]

/-- Three primitives, one of them in place of two earlier ones of its name, of which the second is
of the host too. -/
def additionReplaced : Registry :=
  empty.registerAll [.isZero, .arithmetic .add, .host "+" ⟨0⟩, .field, .host "+" ⟨1⟩]

/-- A frame that has the second of their names. -/
def fieldTaken : Store := (Store.empty.addRoot (Dict.ofList [("field", .null)])).2

/-- The name that is taken keeps its value. The one before it is bound, to the primitive that was
registered last, and the one after it is not. -/
theorem install_laws_fieldTaken :
    ∃ d, additionReplaced.install ⟨0⟩ fieldTaken
        = (.error (.redefinition "field"), fieldTaken.setBindings ⟨0⟩ d)
      ∧ d.get? "+" = some (.primitive (.host "+" ⟨1⟩)) ∧ d.get? "field" = some .null
      ∧ d.get? "zero?" = none := by
  obtain ⟨hlast, -, hinstall, -⟩ := install_laws
  have hclash : additionReplaced.Clashes ⟨0⟩ fieldTaken "field" :=
    ⟨by decide +kernel, by decide +kernel⟩
  obtain ⟨name, d, hfirst, herror, hget⟩ :=
    (hinstall additionReplaced fieldTaken ⟨0⟩ (by decide +kernel)).2 ⟨_, hclash⟩
  have hnames : (fieldTaken.frame ⟨0⟩).bindings.names = ["field"] := by decide +kernel
  -- The frame has one name, so the clash can be at no other.
  obtain rfl : name = "field" :=
    List.mem_singleton.1 (hnames ▸ Dict.mem_names_iff.2 hfirst.clashes.2)
  refine ⟨d, herror, ?_, ?_, ?_⟩
  · rw [hget, additionReplaced, hlast]
    rfl
  · rw [hget]
    rfl
  · rw [hget]
    rfl

end Registry

end ObjectLisp
