import ObjectLisp.Proofs.Links
import ObjectLisp.Proofs.Store.Binding

/-!
# Nested scopes

`Store.enclosing` follows the links from a frame to the frames around it, with no regard to where
they lead. In a `Nested` store they lead to older frames, so they end, and the chain that names are
looked up along has all the frames they lead to.

In such a store `Store.get?` and `Store.owner?`, which search the chain for a value and for a frame,
find what the links lead to: the nearest frame that binds the name (`Store.Owns`), and the value it
holds there.
-/

namespace ObjectLisp.Store

variable {s t : Store} {scope id : FrameId} {name : String}

/-! ## Frames around frames -/

/-- The frame that is `n` frames further out, unless the outermost one comes before. -/
def enclosing (s : Store) : FrameId → Nat → Option FrameId
  | scope, 0 => some scope
  | scope, n + 1 => (s.frame scope).outer.bind fun outer => s.enclosing outer n

/-- The enclosing scopes follow the links outwards. -/
theorem isChain_enclosing (s : Store) : IsChain (fun id => (s.frame id).outer) s.enclosing :=
  ⟨fun _ => rfl, fun _ _ => rfl⟩

/-- The frame is on the way outwards from the scope, and no frame before it binds the name. -/
def Sees (s : Store) (name : String) (scope id : FrameId) : Prop :=
  LeadsTo (s.enclosing scope) (fun f => (s.frame f).bindings.contains name = false) id

/-- The frame is the nearest one, from the scope outwards, that binds the name. -/
structure Owns (s : Store) (name : String) (scope id : FrameId) : Prop where
  sees : s.Sees name scope id
  binds : (s.frame id).bindings.contains name = true

/-- A scope sees itself. -/
theorem sees_self (s : Store) (name : String) (id : FrameId) : s.Sees name id id :=
  s.isChain_enclosing.leadsTo_self id

/-- A scope sees another through its outer one where the name is free. -/
theorem sees_iff : s.Sees name scope id ↔ scope = id
    ∨ (s.frame scope).bindings.contains name = false
      ∧ ∃ outer, (s.frame scope).outer = some outer ∧ s.Sees name outer id :=
  s.isChain_enclosing.leadsTo_iff

/-- So it sees what its outer scope sees if the name is free in it. -/
theorem Sees.of_outer {outer : FrameId} (h : s.Sees name outer id)
    (hfree : (s.frame scope).bindings.contains name = false)
    (houter : (s.frame scope).outer = some outer) : s.Sees name scope id :=
  s.isChain_enclosing.leadsTo_of_next hfree houter h

/-- A scope has at most one owner of a name. -/
theorem Owns.unique {id' : FrameId} (h : s.Owns name scope id) (h' : s.Owns name scope id') :
    id = id' := by
  refine h.sees.unique h'.sees ?_ ?_
  · simp [h.binds]
  · simp [h'.binds]

/-- A frame that binds the name owns it, and for one that does not the frame around it decides. -/
theorem owns_iff : s.Owns name scope id ↔
    (scope = id ∧ (s.frame id).bindings.contains name = true)
    ∨ (s.frame scope).bindings.contains name = false
      ∧ ∃ outer, (s.frame scope).outer = some outer ∧ s.Owns name outer id := by
  constructor
  · rintro ⟨hsees, hbinds⟩
    rcases sees_iff.1 hsees with heq | ⟨hfree, outer, houter, hsees⟩
    · exact .inl ⟨heq, hbinds⟩
    · exact .inr ⟨hfree, outer, houter, hsees, hbinds⟩
  · rintro (⟨rfl, hbinds⟩ | ⟨hfree, outer, houter, h⟩)
    · exact ⟨s.sees_self name scope, hbinds⟩
    · exact ⟨h.sees.of_outer hfree houter, h.binds⟩

/-! ## Nested stores -/

/-- An assignment leaves the frame around each frame as it is. -/
theorem outer_assign (s : Store) (id : FrameId) (name : String) (v : Value) (f : FrameId) :
    ((s.assign id name v).frame f).outer = (s.frame f).outer := by
  by_cases hf : f = id
  · subst hf
    by_cases hlt : f.index < s.frames.size
    · rw [frame_assign hlt]
    · simp [assign, setFrame, Array.setIfInBounds, hlt]
  · rw [frame_assign_of_ne hf]

/-- The frame around each frame is older than the frame. -/
def Nested (s : Store) : Prop :=
  ∀ id outer, (s.frame id).outer = some outer → outer.index < id.index

namespace Nested

/-- What holds of a frame if it holds of the frame around it holds of every frame. -/
theorem induction (hs : s.Nested) {motive : FrameId → Prop}
    (step : ∀ id, (∀ outer, (s.frame id).outer = some outer → motive outer) → motive id)
    (id : FrameId) : motive id := by
  induction hn : id.index using Nat.strongRecOn generalizing id with
  | ind n ih =>
    refine step id fun outer houter => ih outer.index ?_ outer rfl
    exact hn ▸ hs id outer houter

/-- The chain of a frame goes on with that of the frame around it. -/
theorem chain_eq (hs : s.Nested) (scope : FrameId) :
    s.chain scope = scope :: (s.frame scope).outer.elim [] s.chain := by
  rw [chain]
  cases houter : (s.frame scope).outer with
  | none => rfl
  | some outer =>
    have hlt := hs scope outer houter
    simp only [if_pos hlt, Option.elim_some]

/-- A name has the value bound here, or else the one it has further out. -/
theorem get?_eq (hs : s.Nested) (scope : FrameId) (name : String) :
    s.get? scope name = ((s.frame scope).bindings.get? name).or
      ((s.frame scope).outer.bind fun outer => s.get? outer name) := by
  rw [Store.get?_eq]
  cases houter : (s.frame scope).outer with
  | none => rfl
  | some outer =>
    have hlt := hs scope outer houter
    simp only [if_pos hlt, Option.bind_some]

/-- A name is owned here if it is bound here, and else by the scope that owns it further out. -/
theorem owner?_eq (hs : s.Nested) (scope : FrameId) (name : String) :
    s.owner? scope name = if (s.frame scope).bindings.contains name then some scope
      else (s.frame scope).outer.bind fun outer => s.owner? outer name := by
  rw [owner?, hs.chain_eq, List.find?_cons]
  cases (s.frame scope).bindings.contains name with
  | true => rfl
  | false => cases (s.frame scope).outer <;> rfl

/-- Frames that keep the frames around them stay nested. -/
theorem of_outer_eq (hs : s.Nested) (h : ∀ id, (t.frame id).outer = (s.frame id).outer) :
    t.Nested := by
  intro id outer houter
  rw [h id] at houter
  exact hs id outer houter

/-- A frame inside an older one may be added. -/
theorem addFrame (hs : s.Nested) {f : Frame}
    (hf : ∀ outer, f.outer = some outer → outer.index < s.frames.size) :
    (s.addFrame f).2.Nested := by
  intro id outer houter
  rw [frame_addFrame] at houter
  split at houter
  · next hid => exact hid ▸ hf outer houter
  · exact hs id outer houter

/-- The search for a frame finds the owner of the name. -/
theorem owner?_eq_some_iff (hs : s.Nested) :
    s.owner? scope name = some id ↔ s.Owns name scope id := by
  -- The induction goes outwards, where the frames get older.
  induction scope using hs.induction with
  | step scope ih =>
    rw [hs.owner?_eq, owns_iff]
    cases hbinds : (s.frame scope).bindings.contains name with
    | true =>
      rw [if_pos rfl, Option.some_inj]
      constructor
      · rintro rfl
        exact .inl ⟨rfl, hbinds⟩
      · rintro (⟨rfl, -⟩ | ⟨hfree, -⟩)
        · rfl
        · nomatch hfree
    | false =>
      rw [if_neg Bool.false_ne_true, Option.bind_eq_some_iff]
      constructor
      · rintro ⟨outer, houter, h⟩
        exact .inr ⟨rfl, outer, houter, (ih outer houter).1 h⟩
      · rintro (⟨rfl, hid⟩ | ⟨-, outer, houter, h⟩)
        · nomatch hbinds.symm.trans hid
        · exact ⟨outer, houter, (ih outer houter).2 h⟩

end Nested

/-! ## Names -/

/-- Looking for the first value is looking for the first place that has one. -/
theorem findSome?_eq_bind_find? {α β : Type} (f : α → Option β) (l : List α) :
    l.findSome? f = (l.find? fun a => (f a).isSome).bind f := by
  induction l with
  | nil => rfl
  | cons a l ih =>
    rw [List.findSome?_cons, List.find?_cons]
    cases ha : f a with
    | none => exact ih
    | some b => exact ha.symm

/-- The value of a name is that in its owner. -/
theorem get?_eq_bind_owner? (s : Store) (scope : FrameId) (name : String) :
    s.get? scope name
      = (s.owner? scope name).bind fun id => (s.frame id).bindings.get? name :=
  findSome?_eq_bind_find? _ _

/-- Getting a name succeeds with the value it has. -/
theorem get_eq_ok_iff {v : Value} : s.get scope name = .ok v ↔ s.get? scope name = some v := by
  rw [get]
  cases s.get? scope name <;> simp

/-- Names that have the same value, or both none, are looked up alike. -/
theorem get_congr {scope' : FrameId} (h : t.get? scope' name = s.get? scope name) :
    t.get scope' name = s.get scope name := by
  rw [get, get, h]

/-- A frame that is found binds the name. -/
theorem contains_of_owner? (h : s.owner? scope name = some id) :
    (s.frame id).bindings.contains name = true :=
  List.find?_some (p := fun id => (s.frame id).bindings.contains name) h

/-- A name has a value exactly where it has an owner. -/
theorem isSome_get? (s : Store) (scope : FrameId) (name : String) :
    (s.get? scope name).isSome = (s.owner? scope name).isSome := by
  rw [get?_eq_bind_owner?]
  cases howner : s.owner? scope name with
  | none => rfl
  | some id => exact contains_of_owner? howner

/-- A name has the value that its owner holds. -/
theorem Nested.get_eq_ok_iff (hs : s.Nested) {v : Value} :
    s.get scope name = .ok v
      ↔ ∃ id, s.Owns name scope id ∧ (s.frame id).bindings.get? name = some v := by
  rw [Store.get_eq_ok_iff, get?_eq_bind_owner?, Option.bind_eq_some_iff]
  simp only [hs.owner?_eq_some_iff]

end ObjectLisp.Store
