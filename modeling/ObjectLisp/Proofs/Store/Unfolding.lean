import Mathlib.Data.List.Sort
import ObjectLisp.Proofs.Object.Indistinguishability

/-!
# The text of a value as a tree of paths

The objects that can be reached from a value are a graph, and its text is that of a tree: the value
is unfolded along all paths that lead on from it (`Store.Unfolds`). A path may go round in a circle,
so the tree is cut short, and it is cut exactly where an object is an ancestor of itself on the path
that leads to it (`Tree.CutsInside`). This tree is the only one of its kind, and its text is the
text of the value. An object that is reached on several paths is written out on each of them.

A writer with a set of its own that objects are put into and taken out of again (`Store.Puts`)
writes the same text. It returns with the set it began with, so the set is always that of the
ancestors.
-/

namespace ObjectLisp

/-! ## Trees -/

/-- A value unfolded along its paths. An object is written out or cut short. -/
inductive Tree where
  | scalar (text : String)
  | cycle (id : ObjectId)
  | object (id : ObjectId) (fields : List (String × Tree)) (prototype : Tree)

namespace Tree

instance : Inhabited Tree := ⟨scalar ""⟩

mutual

/-- The text of a tree. -/
def text : Tree → String
  | scalar text => text
  | cycle _ => "<cycle>"
  | object _ fields prototype =>
    "(obj" ++ fieldsText fields ++ " proto:" ++ prototype.text ++ ")"

/-- The fields of an object, each after a space. -/
def fieldsText : List (String × Tree) → String
  | [] => ""
  | (name, t) :: rest => " :" ++ name ++ " " ++ t.text ++ fieldsText rest

end

/-- Inside the objects `path`, an object is cut short exactly where it is its own ancestor. -/
inductive CutsInside : List ObjectId → Tree → Prop
  | scalar {path : List ObjectId} (text : String) : CutsInside path (.scalar text)
  | cycle {path : List ObjectId} {id : ObjectId} (h : id ∈ path) : CutsInside path (.cycle id)
  | object {path : List ObjectId} {id : ObjectId} {fields : List (String × Tree)}
      {prototype : Tree} (h : id ∉ path) (hfields : ∀ e ∈ fields, CutsInside (id :: path) e.2)
      (hprototype : CutsInside (id :: path) prototype) :
      CutsInside path (.object id fields prototype)

/-- Some object of the tree is cut short. -/
inductive HasCycle : Tree → Prop
  | cycle (id : ObjectId) : HasCycle (.cycle id)
  | field {id : ObjectId} {fields : List (String × Tree)} {prototype : Tree} {e : String × Tree}
      (he : e ∈ fields) (h : HasCycle e.2) : HasCycle (.object id fields prototype)
  | prototype {id : ObjectId} {fields : List (String × Tree)} {prototype : Tree}
      (h : HasCycle prototype) : HasCycle (.object id fields prototype)

/-- The text of fields is put together from their own texts. -/
theorem fieldsText_map {l : List (String × Value)} {tree : String × Value → Tree}
    {texts : String × Value → String} (h : ∀ e ∈ l, (tree e).text = texts e) :
    fieldsText (l.map fun e => (e.1, tree e))
      = String.join (l.map fun e => " :" ++ e.1 ++ " " ++ texts e) := by
  induction l with
  | nil => rfl
  | cons e l ih =>
    obtain ⟨hhead, htail⟩ := List.forall_mem_cons.1 h
    rw [List.map_cons, List.map_cons, fieldsText, hhead, ih htail, String.join_cons]

end Tree

/-- Lists by strictly increasing name that have the same names, and the same things under each, are
the same. -/
theorem Dict.eq_of_names {α : Type} {l m : List (String × α)}
    (hl : l.Pairwise fun a b => a.1 < b.1) (hm : m.Pairwise fun a b => a.1 < b.1)
    (hnames : ∀ name, (∃ a, (name, a) ∈ l) ↔ ∃ a, (name, a) ∈ m)
    (h : ∀ name a b, (name, a) ∈ l → (name, b) ∈ m → a = b) : l = m := by
  have : Std.Irrefl fun a b : String × α => a.1 < b.1 := ⟨fun a => String.lt_irrefl a.1⟩
  have : Std.Antisymm fun a b : String × α => a.1 < b.1 :=
    ⟨fun a b hab hba => absurd (String.lt_trans hab hba) (String.lt_irrefl a.1)⟩
  refine hl.eq_of_mem_iff hm fun e => ?_
  obtain ⟨name, a⟩ := e
  constructor
  · intro ha
    obtain ⟨b, hb⟩ := (hnames name).1 ⟨a, ha⟩
    rwa [h name a b ha hb]
  · intro ha
    obtain ⟨b, hb⟩ := (hnames name).2 ⟨a, ha⟩
    rwa [← h name b a hb ha]

namespace Store

variable {s : Store} {v : Value} {x : ObjectId} {path : List ObjectId} {t t' : Tree}

/-- The text of a value that is no object. -/
inductive ScalarText (s : Store) : Value → String → Prop
  | number (x : Float) : ScalarText s (.number x) (Number.text x)
  | bool (b : Bool) : ScalarText s (.bool b) (if b then "true" else "false")
  | null : ScalarText s .null "null"
  | keyword (name : String) : ScalarText s (.keyword name) (":" ++ name)
  | closure (id : ClosureId) :
      ScalarText s (.closure id) ("<closure (" ++ " ".intercalate (s.closure id).params ++ ")>")
  | primitive (p : Primitive) : ScalarText s (.primitive p) ("<primitive " ++ p.name ++ ">")

/-- A tree that follows the paths from a value. Wherever an object is written out, its own fields
are listed by strictly increasing name, each with the tree of its value, and its prototype is
last. -/
inductive Unfolds (s : Store) : Value → Tree → Prop
  | scalar {v : Value} {text : String} (h : s.ScalarText v text) : Unfolds s v (.scalar text)
  | cycle (id : ObjectId) : Unfolds s (.object id) (.cycle id)
  | object {id : ObjectId} {fields : List (String × Tree)} {prototype : Tree}
      (hsorted : fields.Pairwise fun a b => a.1 < b.1)
      (hnames : ∀ name, (s.object id).fields.contains name = true ↔ ∃ t, (name, t) ∈ fields)
      (hfields : ∀ name t v, (name, t) ∈ fields → (s.object id).fields.get? name = some v →
        Unfolds s v t)
      (hprototype : Unfolds s (s.object id).prototypeValue prototype) :
      Unfolds s (.object id) (.object id fields prototype)

/-! ## The text of a tree -/

/-- A value that is no object has its text anywhere. -/
theorem ScalarText.textWithin_eq {text : String} (h : s.ScalarText v text) (path : List ObjectId) :
    s.textWithin path v = text := by
  cases h <;> rw [textWithin]

/-- An object of the store is what is stored there. -/
theorem object_of_some {o : Object} (h : s.objects[x.index]? = some o) : s.object x = o := by
  rw [object, Array.getD_eq_getD_getElem?, h, Option.getD_some]

/-- An object that is missing counts as an empty one. -/
theorem object_of_none (h : s.objects[x.index]? = none) : s.object x = default := by
  rw [object, Array.getD_eq_getD_getElem?, h, Option.getD_none]

/-- The text of an object that is its own ancestor. -/
theorem textWithin_of_mem (h : x ∈ path) : s.textWithin path (.object x) = "<cycle>" := by
  rw [textWithin, dif_pos h]

/-- The text of an object that is not its own ancestor, also where no object is. -/
theorem textWithin_of_not_mem (h : x ∉ path) :
    s.textWithin path (.object x) = "(obj"
      ++ String.join ((s.object x).fields.entries.map fun e =>
          " :" ++ e.1 ++ " " ++ s.textWithin (x :: path) e.2)
      ++ " proto:" ++ s.textWithin (x :: path) (s.object x).prototypeValue ++ ")" := by
  cases ho : s.objects[x.index]? with
  | some o =>
    rw [object_of_some ho, textWithin_object h ho]
  | none =>
    have hprototype : s.textWithin (x :: path) (s.object x).prototypeValue = "null" := by
      rw [object_of_none ho]
      exact ScalarText.null.textWithin_eq _
    rw [hprototype, object_of_none ho, textWithin, dif_neg h,
      dif_neg (Nat.not_lt.2 (Array.getElem?_eq_none_iff.1 ho))]
    rfl

/-- Induction along the paths: what holds of scalars and of objects that are their own ancestors,
and of an object if it holds of all that the object refers to, holds of every value. -/
theorem path_induction {P : List ObjectId → Value → Prop}
    (scalar : ∀ path v text, s.ScalarText v text → P path v)
    (cycle : ∀ path id, id ∈ path → P path (.object id))
    (object : ∀ path id, id ∉ path →
      (∀ e ∈ (s.object id).fields.entries, P (id :: path) e.2) →
      P (id :: path) (s.object id).prototypeValue → P path (.object id))
    (path : List ObjectId) (v : Value) : P path v := by
  fun_induction s.textWithin path v with
  | case1 path x => exact scalar path _ _ (.number x)
  | case2 path => exact scalar path _ _ (.bool true)
  | case3 path b hb => exact scalar path _ _ (.bool b)
  | case4 path => exact scalar path _ _ .null
  | case5 path name => exact scalar path _ _ (.keyword name)
  | case6 path id => exact scalar path _ _ (.closure id)
  | case7 path p => exact scalar path _ _ (.primitive p)
  | case8 path id hcycle => exact cycle path id hcycle
  | case9 path id hcycle hid o field ihFields ihPrototype =>
    refine object path id hcycle (fun e _ => ihFields e) ?_
    rw [object_of_some (Array.getElem?_eq_getElem hid)]
    exact ihPrototype
  | case10 path id hcycle hid =>
    -- An object that is missing has no fields and null for its prototype.
    have hobject : s.object id = default :=
      object_of_none (Array.getElem?_eq_none (Nat.le_of_not_lt hid))
    refine object path id hcycle ?_ ?_
    · rw [hobject]
      exact List.forall_mem_nil _
    · rw [hobject]
      exact scalar _ _ _ .null

/-- Every value unfolds to a tree that is cut inside the given objects, and its text is what is
written there. -/
theorem exists_unfolds (s : Store) (path : List ObjectId) (v : Value) :
    ∃ t, s.Unfolds v t ∧ t.CutsInside path ∧ t.text = s.textWithin path v := by
  induction path, v using path_induction (s := s) with
  | scalar path v text h =>
    exact ⟨.scalar text, .scalar h, .scalar text, (h.textWithin_eq path).symm⟩
  | cycle path id h =>
    exact ⟨.cycle id, .cycle id, .cycle h, (textWithin_of_mem h).symm⟩
  | object path id h ihFields ihPrototype =>
    -- One tree for each field, chosen at once.
    choose! tree hunfolds hcuts htext using ihFields
    obtain ⟨p, hp, hpcuts, hptext⟩ := ihPrototype
    refine ⟨.object id ((s.object id).fields.entries.map fun e => (e.1, tree e)) p,
      .object ?_ ?_ ?_ hp, .object h ?_ hpcuts, ?_⟩
    · exact List.pairwise_map.2 (s.object id).fields.sorted
    · intro name
      rw [Dict.contains, Option.isSome_iff_exists]
      constructor
      · rintro ⟨v, hv⟩
        exact ⟨_, List.mem_map.2 ⟨(name, v), Dict.mem_of_lookup hv, rfl⟩⟩
      · rintro ⟨t, ht⟩
        obtain ⟨e, he, heq⟩ := List.mem_map.1 ht
        cases heq
        exact ⟨e.2, Dict.get?_eq_some_of_mem he⟩
    · intro name t v ht hv
      obtain ⟨e, he, heq⟩ := List.mem_map.1 ht
      cases heq
      cases (Dict.get?_eq_some_of_mem he).symm.trans hv
      exact hunfolds e he
    · intro e' he'
      obtain ⟨e, he, rfl⟩ := List.mem_map.1 he'
      exact hcuts e he
    · rw [Tree.text, Tree.fieldsText_map htext, hptext, textWithin_of_not_mem h]

/-! ## One tree -/

/-- A value with such a text is no object. -/
theorem ScalarText.ne_object {text : String} (h : s.ScalarText v text) : v ≠ .object x := by
  rintro rfl
  nomatch h

/-- A value unfolds to one tree that is cut inside the given objects. -/
theorem Unfolds.unique (h : s.Unfolds v t) (h' : s.Unfolds v t') (hcuts : t.CutsInside path)
    (hcuts' : t'.CutsInside path) : t = t' := by
  induction h generalizing t' path with
  | scalar h =>
    cases h' with
    | scalar h' => rw [← h.textWithin_eq [], h'.textWithin_eq]
    | cycle => exact absurd rfl h.ne_object
    | object => exact absurd rfl h.ne_object
  | cycle id =>
    cases h' with
    | scalar h' => exact absurd rfl h'.ne_object
    | cycle => rfl
    | object =>
      cases hcuts with
      | cycle hmem =>
        cases hcuts' with
        | object hnew => exact absurd hmem hnew
  | @object id fields p hsorted hnames _ _ ihFields ihPrototype =>
    -- The object is cut on both sides or on neither, since the path to it is the same.
    cases hcuts with
    | object hnew hfieldsCut hprototypeCut =>
      cases h' with
      | scalar h' => exact absurd rfl h'.ne_object
      | cycle =>
        cases hcuts' with
        | cycle hmem => exact absurd hmem hnew
      | @object _ fields' p' hsorted' hnames' hfields' hprototype' =>
        cases hcuts' with
        | object _ hfieldsCut' hprototypeCut' =>
          rw [ihPrototype hprototype' hprototypeCut hprototypeCut']
          congr 1
          -- The fields have the same names in the same order, so it is enough to compare them name
          -- by name.
          refine Dict.eq_of_names hsorted hsorted'
            (fun name => (hnames name).symm.trans (hnames' name)) fun name t t' ht ht' => ?_
          obtain ⟨v, hv⟩ := Option.isSome_iff_exists.1 ((hnames name).2 ⟨t, ht⟩)
          exact ihFields name t v ht hv (hfields' name t' v ht' hv) (hfieldsCut _ ht)
            (hfieldsCut' _ ht')

/-! ## Circles -/

/-- A circle can be reached from a value. -/
def ReachesCircle (s : Store) (v : Value) : Prop :=
  ∃ x c, v = .object x ∧ Relation.ReflTransGen s.Refers x c ∧ Relation.TransGen s.Refers c c

/-- A circle that can be reached from what an object holds can be reached from the object. -/
theorem ReachesCircle.of_refers {w : Value} (hw : ∀ y, w = .object y → s.Refers x y)
    (h : s.ReachesCircle w) : s.ReachesCircle (.object x) := by
  obtain ⟨y, c, rfl, hc, hcircle⟩ := h
  exact ⟨x, c, rfl, .head (hw y rfl) hc, hcircle⟩

/-- An object refers to its prototype and to the objects in its fields. -/
theorem refers_iff {y : ObjectId} :
    s.Refers x y ↔ (s.object x).prototypeValue = .object y
      ∨ ∃ name, (s.object x).fields.get? name = some (.object y) := by
  have hprototype : ∀ o : Object, o.prototype = some y ↔ o.prototypeValue = .object y :=
    fun o => ⟨fun h => by rw [Object.prototypeValue, h], Object.prototype_eq_of_prototypeValue⟩
  unfold Refers
  cases ho : s.objects[x.index]? with
  | none =>
    rw [object_of_none ho]
    constructor
    · rintro ⟨_, ⟨⟩, -⟩
    · rintro (h | ⟨_, h⟩) <;> nomatch h
  | some o =>
    rw [object_of_some ho, ← hprototype]
    simp

/-- Where the tree is cut, there is a circle. -/
theorem Unfolds.reachesCircle (h : s.Unfolds v t) (hcuts : t.CutsInside path)
    (hpath : ∀ x, v = .object x → ∀ a ∈ path, Relation.TransGen s.Refers a x)
    (hcycle : t.HasCycle) : s.ReachesCircle v := by
  induction hcycle generalizing v path with
  | cycle id =>
    -- The cut comes back to an object of the path, from which it was reached.
    cases h with
    | cycle =>
      cases hcuts with
      | cycle hmem => exact ⟨id, id, rfl, .refl, hpath id rfl id hmem⟩
  | @field id fields p e he _ ih =>
    cases h with
    | object hsorted hnames hfields hprototype =>
      cases hcuts with
      | object _ hfieldsCut _ =>
        obtain ⟨w, hw⟩ := Option.isSome_iff_exists.1 ((hnames e.1).2 ⟨e.2, he⟩)
        have hrefers : ∀ y, w = .object y → s.Refers id y :=
          fun y hy => refers_iff.2 (.inr ⟨e.1, hy ▸ hw⟩)
        exact .of_refers hrefers (ih (hfields _ _ w he hw) (hfieldsCut e he)
          fun y hy => transGen_cons (hpath id rfl) (hrefers y hy))
  | @prototype id fields p _ ih =>
    cases h with
    | object hsorted hnames hfields hprototype =>
      cases hcuts with
      | object _ _ hprototypeCut =>
        have hrefers : ∀ y, (s.object id).prototypeValue = .object y → s.Refers id y :=
          fun y hy => refers_iff.2 (.inl hy)
        exact .of_refers hrefers (ih hprototype hprototypeCut
          fun y hy => transGen_cons (hpath id rfl) (hrefers y hy))

/-- Where the tree is not cut, the paths come to an end. -/
theorem Unfolds.acc (h : s.Unfolds (.object x) t) (hcycle : ¬ t.HasCycle) :
    Acc (flip s.Refers) x := by
  generalize hv : Value.object x = v at h
  induction h generalizing x with
  | scalar h => exact absurd hv.symm h.ne_object
  | cycle id => exact absurd (.cycle id) hcycle
  | @object id fields p hsorted hnames _ _ ihFields ihPrototype =>
    cases hv
    refine .intro _ fun y hxy => ?_
    rcases refers_iff.1 hxy with hprototype | ⟨name, hfield⟩
    · exact ihPrototype (fun hp => hcycle (.prototype hp)) hprototype.symm
    · obtain ⟨t, ht⟩ := (hnames name).1 (Option.isSome_iff_exists.2 ⟨_, hfield⟩)
      exact ihFields name t _ ht hfield (fun he => hcycle (.field ht he)) rfl

/-- The tree of a value is cut somewhere exactly when a circle can be reached. -/
theorem Unfolds.hasCycle_iff (h : s.Unfolds v t) (hcuts : t.CutsInside []) :
    t.HasCycle ↔ s.ReachesCircle v := by
  constructor
  · exact h.reachesCircle hcuts fun _ _ _ ha => nomatch ha
  · rintro ⟨x, c, rfl, hc, hcircle⟩
    by_contra hcycle
    exact acyclicFrom_of_acc (h.acc hcycle) c hc hcircle

end Store

/-! ## A writer that remembers where it is -/

/-- What has been written, and the objects that have been begun and not ended. -/
structure Writer where
  text : String
  inside : List ObjectId

namespace Writer

/-- Write a text. -/
def put (w : Writer) (text : String) : Writer := { w with text := w.text ++ text }

/-- Begin an object. -/
def enter (w : Writer) (id : ObjectId) : Writer := { w with inside := id :: w.inside }

/-- End an object. -/
def leave (w : Writer) (id : ObjectId) : Writer := { w with inside := w.inside.erase id }

end Writer

namespace Store

mutual

/-- Writing a value takes the writer from one state to another. An object is begun before its parts
are written and ended after them, unless the writer is inside it already. -/
inductive Puts (s : Store) : Value → Writer → Writer → Prop
  | scalar {v : Value} {text : String} {w : Writer} (h : s.ScalarText v text) :
      Puts s v w (w.put text)
  | cycle {id : ObjectId} {w : Writer} (h : id ∈ w.inside) :
      Puts s (.object id) w (w.put "<cycle>")
  | object {id : ObjectId} {w w₁ w₂ : Writer} (h : id ∉ w.inside)
      (hfields : PutsFields s (s.object id).fields.entries ((w.enter id).put "(obj") w₁)
      (hprototype : Puts s (s.object id).prototypeValue (w₁.put " proto:") w₂) :
      Puts s (.object id) w ((w₂.put ")").leave id)

/-- Writing fields takes the writer from one state to another. -/
inductive PutsFields (s : Store) : List (String × Value) → Writer → Writer → Prop
  | nil {w : Writer} : PutsFields s [] w w
  | cons {name : String} {v : Value} {rest : List (String × Value)} {w w₁ w₂ : Writer}
      (h : Puts s v (((w.put " :").put name).put " ") w₁) (hrest : PutsFields s rest w₁ w₂) :
      PutsFields s ((name, v) :: rest) w w₂

end

/-- The text of fields inside the given objects. -/
def fieldsText (s : Store) (path : List ObjectId) (fields : List (String × Value)) : String :=
  String.join (fields.map fun e => " :" ++ e.1 ++ " " ++ s.textWithin path e.2)

mutual

/-- The writer writes the text of the value and is inside the same objects as before. -/
theorem Puts.eq_put {s : Store} : {v : Value} → {w w' : Writer} → s.Puts v w w' →
    w' = w.put (s.textWithin w.inside v)
  | _, _, _, .scalar h => by rw [h.textWithin_eq]
  | _, _, _, .cycle h => by rw [textWithin_of_mem h]
  | _, _, _, .object h hfields hprototype => by
    have hw₁ := hfields.eq_put
    have hw₂ := hprototype.eq_put
    rw [hw₂, hw₁, textWithin_of_not_mem h]
    simp only [fieldsText, Writer.put, Writer.enter, Writer.leave, List.erase_cons_head,
      String.append_assoc]

/-- The writer writes the text of the fields and is inside the same objects as before. -/
theorem PutsFields.eq_put {s : Store} : {fields : List (String × Value)} → {w w' : Writer} →
    s.PutsFields fields w w' → w' = w.put (s.fieldsText w.inside fields)
  | _, _, _, .nil => by simp [fieldsText, Writer.put]
  | _, _, _, .cons h hrest => by
    have hw₁ := h.eq_put
    rw [hrest.eq_put, hw₁]
    simp only [fieldsText, Writer.put, List.map_cons, String.join_cons, String.append_assoc]

end

/-- The writer comes to an end. -/
theorem exists_puts (s : Store) (path : List ObjectId) (v : Value) :
    ∀ w : Writer, w.inside = path → ∃ w', s.Puts v w w' := by
  induction path, v using path_induction (s := s) with
  | scalar path v text h => exact fun w _ => ⟨_, .scalar h⟩
  | cycle path id h => exact fun w hw => ⟨_, .cycle (hw ▸ h)⟩
  | object path id h ihFields ihPrototype =>
    -- The fields are written one after another, each with the same set of objects being written.
    have hfields : ∀ fields : List (String × Value),
        (∀ e ∈ fields, ∀ w : Writer, w.inside = id :: path → ∃ w', s.Puts e.2 w w') →
        ∀ w : Writer, w.inside = id :: path → ∃ w', s.PutsFields fields w w' := by
      intro fields hputs
      induction fields with
      | nil => exact fun w _ => ⟨w, .nil⟩
      | cons e rest ih =>
        intro w hw
        obtain ⟨hhead, htail⟩ := List.forall_mem_cons.1 hputs
        obtain ⟨w₁, hw₁⟩ := hhead (((w.put " :").put e.1).put " ") hw
        obtain ⟨w₂, hw₂⟩ := ih htail w₁ (by rw [hw₁.eq_put]; exact hw)
        exact ⟨w₂, .cons hw₁ hw₂⟩
    intro w hw
    obtain ⟨w₁, hw₁⟩ := hfields _ ihFields ((w.enter id).put "(obj") (by rw [← hw]; rfl)
    obtain ⟨w₂, hw₂⟩ := ihPrototype (w₁.put " proto:") (by rw [hw₁.eq_put, ← hw]; rfl)
    exact ⟨_, .object (hw ▸ h) hw₁ hw₂⟩

/-- The writer ends in one state: with the text of the value, and inside the same objects as
before. -/
theorem puts_iff {s : Store} {v : Value} {w w' : Writer} :
    s.Puts v w w' ↔ w' = ⟨w.text ++ s.textWithin w.inside v, w.inside⟩ := by
  constructor
  · exact Puts.eq_put
  · rintro rfl
    obtain ⟨w', h⟩ := exists_puts s w.inside v w rfl
    cases h.eq_put
    exact h

/-! ## The text of a value -/

/-- The text of a value is that of its tree of paths, in which an object is cut short exactly where
it is its own ancestor, and there is one such tree. It is cut somewhere exactly when a circle can be
reached from the value. The writer that remembers the objects it is inside of writes the same
text, and at the end it is inside the objects that it was inside of at the beginning. -/
theorem text_unfolds (s : Store) (v : Value) :
    ∃ t : Tree, (s.Unfolds v t ∧ t.CutsInside [])
      ∧ (∀ t', s.Unfolds v t' ∧ t'.CutsInside [] → t' = t)
      ∧ s.text v = t.text
      ∧ (t.HasCycle ↔ s.ReachesCircle v)
      ∧ (∀ w', s.Puts v ⟨"", []⟩ w' ↔ w' = ⟨t.text, []⟩)
      ∧ ∀ w, (∃ w', s.Puts v w w') ∧ ∀ w', s.Puts v w w' → w'.inside = w.inside := by
  obtain ⟨t, hunfolds, hcuts, htext⟩ := s.exists_unfolds [] v
  refine ⟨t, ⟨hunfolds, hcuts⟩, ?_, htext.symm, hunfolds.hasCycle_iff hcuts, ?_, fun w => ?_⟩
  · exact fun t' h => h.1.unique hunfolds h.2 hcuts
  · intro w'
    rw [puts_iff, htext, String.empty_append]
  · refine ⟨s.exists_puts w.inside v w rfl, fun w' h => ?_⟩
    rw [puts_iff.1 h]

end Store

end ObjectLisp
