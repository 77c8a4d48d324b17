import ObjectLisp.Primitive.Call
import ObjectLisp.Proofs.Expr.Substitution
import ObjectLisp.Proofs.Store.Extension

/-!
# Corresponding stores

Two evaluations that ought to agree run on different stores: they create closures and objects in
different places, and what one side finds in a frame may stand in an expression on the other. A
`World` says which closures and objects correspond, and `Sim` says that what corresponds behaves
alike:

* corresponding closures have the same parameters, and the body of the right one is that of the left
  one with values in the place of some names (`Agrees`);
* corresponding objects have the same field names, and corresponding values and prototypes.

Both stores may grow, and the world with them, and nothing that was known is lost.
-/

namespace ObjectLisp

/-- What the host does in a call of the primitive depends on nothing but the texts of the arguments.
This is a condition on host functions only. -/
def Primitive.IsUniform (host : Host) : Primitive → Prop
  | .host name id => ∀ (s t : Store) (vs ws : List Value), vs.map s.text = ws.map t.text →
      host s name id vs = host t name id ws
  | _ => True

/-- Which closures and objects of two stores correspond. -/
structure World where
  closures : ClosureId → ClosureId → Prop
  objects : ObjectId → ObjectId → Prop

namespace World

variable {host : Host} {W W' W'' : World}

/-! ## Worlds -/

/-- Everything that corresponds in `W` does in `W'`. -/
structure Le (W W' : World) : Prop where
  closures : ∀ i j, W.closures i j → W'.closures i j
  objects : ∀ x y, W.objects x y → W'.objects x y

/-- A world extends itself. -/
theorem Le.refl (W : World) : W.Le W := ⟨fun _ _ h => h, fun _ _ h => h⟩

/-- Extensions can be put together. -/
theorem Le.trans (h : W.Le W') (h' : W'.Le W'') : W.Le W'' where
  closures i j hij := h'.closures i j (h.closures i j hij)
  objects x y hxy := h'.objects x y (h.objects x y hxy)

/-- A world in which one more pair of closures corresponds. -/
def addClosure (W : World) (i j : ClosureId) : World :=
  { W with closures := fun i' j' => W.closures i' j' ∨ (i' = i ∧ j' = j) }

/-- A world in which one more pair of objects corresponds. -/
def addObject (W : World) (x y : ObjectId) : World :=
  { W with objects := fun x' y' => W.objects x' y' ∨ (x' = x ∧ y' = y) }

/-- A world with a pair of closures more extends it. -/
theorem le_addClosure (W : World) (i j : ClosureId) : W.Le (W.addClosure i j) :=
  ⟨fun _ _ h => .inl h, fun _ _ h => h⟩

/-- So does one with a pair of objects more. -/
theorem le_addObject (W : World) (x y : ObjectId) : W.Le (W.addObject x y) :=
  ⟨fun _ _ h => h, fun _ _ h => .inl h⟩

/-! ## Values -/

/-- Values that correspond in a world. -/
inductive Relates (host : Host) (W : World) : Value → Value → Prop
  | number (x : Float) : Relates host W (.number x) (.number x)
  | bool (b : Bool) : Relates host W (.bool b) (.bool b)
  | null : Relates host W .null .null
  | keyword (name : String) : Relates host W (.keyword name) (.keyword name)
  | primitive {p : Primitive} : p.IsUniform host → Relates host W (.primitive p) (.primitive p)
  | closure {i j : ClosureId} : W.closures i j → Relates host W (.closure i) (.closure j)
  | object {x y : ObjectId} : W.objects x y → Relates host W (.object x) (.object y)

/-- Related values stay related in a larger world. -/
theorem Relates.mono (hW : W.Le W') {v w : Value} (h : W.Relates host v w) :
    W'.Relates host v w := by
  cases h with
  | number x => exact .number x
  | bool b => exact .bool b
  | null => exact .null
  | keyword name => exact .keyword name
  | primitive hp => exact .primitive hp
  | closure hij => exact .closure (hW.closures _ _ hij)
  | object hxy => exact .object (hW.objects _ _ hxy)

end World

/-! ## Expressions in scopes -/

/-- The expression `e`, in the scope `f` of the left store, and the same expression with the values
of `σ` put in, in the scope `g` of the right store, hold and find corresponding values: a free name
is bound in both scopes or in none, and where `σ` has a value for it, this one counts on the right.
-/
structure Agrees (host : Host) (W : World) (s t : Store) (f g : FrameId) (σ : Substitution)
    (e : Expr) : Prop where
  left : f.index < s.frames.size
  right : g.index < t.frames.size
  values : ∀ v ∈ e.values, W.Relates host v v
  names : ∀ x ∈ e.free,
    Option.Rel (W.Relates host) (s.get? f x) ((σ.lookup x).or (t.get? g x))

/-- The closures `c` and `d` were made of the same lambda, as far as the world can tell. -/
def ClosureAgrees (host : Host) (W : World) (s t : Store) (c d : Closure) : Prop :=
  ∃ σ : Substitution, d.params = c.params ∧ d.body = c.body.subst (σ.hide c.params) ∧
    Agrees host W s t c.scope d.scope σ (.lambda c.params c.body)

/-- The objects have the same field names, and corresponding values and prototypes. -/
structure ObjectAgrees (host : Host) (W : World) (a b : Object) : Prop where
  fields : a.fields.Matches (W.Relates host) b.fields
  prototype : Option.Rel W.objects a.prototype b.prototype

section Growth

variable {host : Host} {W W' : World} {s s' t t' : Store} {f g : FrameId} {σ : Substitution}
  {e : Expr}

/-- Agreement is kept when the stores and the world grow. -/
theorem Agrees.mono (h : Agrees host W s t f g σ e) (hW : W.Le W') (hs : s.Extends s')
    (ht : t.Extends t') : Agrees host W' s' t' f g σ e where
  left := hs.frame_lt h.left
  right := ht.frame_lt h.right
  values v hv := (h.values v hv).mono hW
  names x hx := by
    rw [hs.get?_eq h.left, ht.get?_eq h.right]
    exact optionRel_imp (fun _ _ hvw => hvw.mono hW) (h.names x hx)

/-- Closures that agree do so in a larger world and in longer stores. -/
theorem ClosureAgrees.mono {c d : Closure} (h : ClosureAgrees host W s t c d) (hW : W.Le W')
    (hs : s.Extends s') (ht : t.Extends t') : ClosureAgrees host W' s' t' c d := by
  obtain ⟨σ, hparams, hbody, hagrees⟩ := h
  exact ⟨σ, hparams, hbody, hagrees.mono hW hs ht⟩

/-- Objects that agree do so in a larger world. -/
theorem ObjectAgrees.mono {a b : Object} (h : ObjectAgrees host W a b) (hW : W.Le W') :
    ObjectAgrees host W' a b where
  fields := h.fields.imp fun _ _ hvw => hvw.mono hW
  prototype := optionRel_imp hW.objects h.prototype

/-- An expression agrees as soon as one does that holds its values and has its free names. -/
theorem Agrees.sub (h : Agrees host W s t f g σ e) {e' : Expr} (hvalues : e'.values ⊆ e.values)
    (hfree : e'.free ⊆ e.free) : Agrees host W s t f g σ e' where
  left := h.left
  right := h.right
  values v hv := h.values v (hvalues hv)
  names x hx := h.names x (hfree hx)

end Growth

/-! ## Stores -/

/-- What corresponds in `W` is there in both stores and behaves alike, and no object corresponds to
two others. -/
structure Sim (host : Host) (W : World) (s t : Store) : Prop where
  closures : ∀ i j, W.closures i j → ∃ c d, s.closures[i.index]? = some c ∧
    t.closures[j.index]? = some d ∧ ClosureAgrees host W s t c d
  objects : ∀ x y, W.objects x y → ∃ a b, s.objects[x.index]? = some a ∧
    t.objects[y.index]? = some b ∧ ObjectAgrees host W a b
  oneToOne : ∀ {x y x' y'}, W.objects x y → W.objects x' y' → (x = x' ↔ y = y')

namespace Sim

variable {host : Host} {W : World} {s s' t t' : Store}

/-- The stores may grow on either side. -/
theorem extend (h : Sim host W s t) (hs : s.Extends s') (ht : t.Extends t') :
    Sim host W s' t' where
  closures i j hij := by
    obtain ⟨c, d, hc, hd, hcd⟩ := h.closures i j hij
    exact ⟨c, d, hs.closures _ _ hc, ht.closures _ _ hd, hcd.mono (.refl W) hs ht⟩
  objects x y hxy := by
    obtain ⟨a, b, ha, hb, hab⟩ := h.objects x y hxy
    exact ⟨a, b, hs.objects _ _ ha, ht.objects _ _ hb, hab⟩
  oneToOne := h.oneToOne

/-- Two new closures that agree may correspond. -/
theorem addClosure (h : Sim host W s t) {c d : Closure} (hcd : ClosureAgrees host W s t c d) :
    Sim host (W.addClosure (s.addClosure c).1 (t.addClosure d).1) (s.addClosure c).2
      (t.addClosure d).2 := by
  have hs := s.extends_addClosure c
  have ht := t.extends_addClosure d
  have hW := W.le_addClosure (s.addClosure c).1 (t.addClosure d).1
  refine ⟨fun i j hij => ?_, fun x y hxy => ?_, h.oneToOne⟩
  · rcases hij with hij | ⟨rfl, rfl⟩
    · obtain ⟨c', d', hc', hd', hcd'⟩ := h.closures i j hij
      exact ⟨c', d', hs.closures _ _ hc', ht.closures _ _ hd', hcd'.mono hW hs ht⟩
    · exact ⟨c, d, Array.getElem?_push_size, Array.getElem?_push_size, hcd.mono hW hs ht⟩
  · obtain ⟨a, b, ha, hb, hab⟩ := h.objects x y hxy
    exact ⟨a, b, ha, hb, hab.mono hW⟩

/-- An object of the left store that corresponds to some object is not a new one. -/
theorem ne_of_objects_left (h : Sim host W s t) {x y : ObjectId} (hxy : W.objects x y)
    (a : Object) : x ≠ (s.addObject a).1 := by
  rintro rfl
  obtain ⟨b, -, hb, -⟩ := h.objects _ _ hxy
  exact absurd (Array.getElem?_eq_some_iff.1 hb).1 (Nat.lt_irrefl _)

/-- An object of the other store that is related to one is not the object added next. -/
theorem ne_of_objects_right (h : Sim host W s t) {x y : ObjectId} (hxy : W.objects x y)
    (a : Object) : y ≠ (t.addObject a).1 := by
  rintro rfl
  obtain ⟨-, b, -, hb, -⟩ := h.objects _ _ hxy
  exact absurd (Array.getElem?_eq_some_iff.1 hb).1 (Nat.lt_irrefl _)

/-- Two new objects that agree may correspond. -/
theorem addObject (h : Sim host W s t) {a b : Object} (hab : ObjectAgrees host W a b) :
    Sim host (W.addObject (s.addObject a).1 (t.addObject b).1) (s.addObject a).2
      (t.addObject b).2 := by
  have hs := s.extends_addObject a
  have ht := t.extends_addObject b
  have hW := W.le_addObject (s.addObject a).1 (t.addObject b).1
  refine ⟨fun i j hij => ?_, fun x y hxy => ?_, ?_⟩
  · obtain ⟨c, d, hc, hd, hcd⟩ := h.closures i j hij
    exact ⟨c, d, hc, hd, hcd.mono hW hs ht⟩
  · rcases hxy with hxy | ⟨rfl, rfl⟩
    · obtain ⟨a', b', ha', hb', hab'⟩ := h.objects x y hxy
      exact ⟨a', b', hs.objects _ _ ha', ht.objects _ _ hb', hab'.mono hW⟩
    · exact ⟨a, b, Array.getElem?_push_size, Array.getElem?_push_size, hab.mono hW⟩
  -- Two old pairs, an old and the new one, and the new one twice.
  · rintro x y x' y' (hxy | ⟨rfl, rfl⟩) (hxy' | ⟨rfl, rfl⟩)
    · exact h.oneToOne hxy hxy'
    · exact iff_of_false (h.ne_of_objects_left hxy a) (h.ne_of_objects_right hxy b)
    · exact iff_of_false (h.ne_of_objects_left hxy' a).symm (h.ne_of_objects_right hxy' b).symm
    · exact iff_of_true rfl rfl

end Sim

end ObjectLisp
