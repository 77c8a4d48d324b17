import ObjectLisp.Object.Equality
import ObjectLisp.Proofs.Dict

/-!
# Equality of objects as bisimilarity

A relation on objects is a bisimulation when related objects are identical or look the same from
outside: they have the same field names, and under each name equal scalars or again related objects,
and prototypes that are related too. `Store.equal` holds of two objects exactly when some
bisimulation relates them.

The comparison assumes that every pair it has begun to compare is equal. When it succeeds, the pairs
assumed by then are a bisimulation, because no assumption is left unchecked. And when there is a
bisimulation, the comparison never leaves it and so never meets a difference.
-/

namespace ObjectLisp

variable {R : ObjectId → ObjectId → Prop}

/-! ## Bisimulations -/

/-- Values that count as equal, when the objects that `R` relates count as equal. -/
inductive Value.EqualUpTo (R : ObjectId → ObjectId → Prop) : Value → Value → Prop
  | number {x y : Float} : (x == y) = true → EqualUpTo R (.number x) (.number y)
  | bool (b : Bool) : EqualUpTo R (.bool b) (.bool b)
  | null : EqualUpTo R .null .null
  | keyword (name : String) : EqualUpTo R (.keyword name) (.keyword name)
  | closure (id : ClosureId) : EqualUpTo R (.closure id) (.closure id)
  | primitive {p q : Primitive} : p.name = q.name → EqualUpTo R (.primitive p) (.primitive q)
  | identical (id : ObjectId) : EqualUpTo R (.object id) (.object id)
  | object {x y : ObjectId} : R x y → EqualUpTo R (.object x) (.object y)

/-- Objects with the same field names, and with field values and prototypes that count as equal. -/
structure Object.EqualUpTo (R : ObjectId → ObjectId → Prop) (a b : Object) : Prop where
  fields : a.fields.Matches (Value.EqualUpTo R) b.fields
  prototype : Option.Rel (fun x y => x = y ∨ R x y) a.prototype b.prototype

namespace Store

/-- The objects of two identities are there and are equal up to `R`. -/
def EqualUpTo (s : Store) (R : ObjectId → ObjectId → Prop) (x y : ObjectId) : Prop :=
  ∃ a b, s.objects[x.index]? = some a ∧ s.objects[y.index]? = some b ∧ a.EqualUpTo R b

/-- Related objects are identical, or equal up to the relation itself. -/
def IsBisimulation (s : Store) (R : ObjectId → ObjectId → Prop) : Prop :=
  ∀ x y, R x y → x = y ∨ s.EqualUpTo R x y

end Store

/-! ## Values -/

namespace Value

/-- Objects count as equal when they are identical or related. -/
theorem equalUpTo_object_iff {x y : ObjectId} :
    EqualUpTo R (.object x) (.object y) ↔ x = y ∨ R x y := by
  constructor
  · intro h
    cases h with
    | identical => exact .inl rfl
    | object hxy => exact .inr hxy
  · rintro (rfl | hxy)
    · exact .identical x
    · exact .object hxy

/-- Values that are not both objects count as equal when they are the same scalar. -/
theorem equalUpTo_iff_sameScalar {v w : Value}
    (h : ∀ x y, v = .object x → w = .object y → False) :
    EqualUpTo R v w ↔ v.sameScalar w = true := by
  constructor
  · intro hvw
    cases hvw with
    | number hxy => exact hxy
    | bool | null | keyword | closure => simp [sameScalar]
    | primitive hpq => simpa [sameScalar] using hpq
    | identical id => exact absurd rfl fun h' => h id id h' rfl
    | @object x y => exact absurd rfl fun h' => h x y h' rfl
  · intro hvw
    unfold sameScalar at hvw
    split at hvw
    · exact .number hvw
    · exact eq_of_beq hvw ▸ .bool _
    · exact .null
    · exact eq_of_beq hvw ▸ .keyword _
    · exact eq_of_beq hvw ▸ .closure _
    · exact .primitive (eq_of_beq hvw)
    · nomatch hvw

end Value

/-! ## Objects -/

/-- Entries match one by one when the names are the same and the values match in pairs. -/
theorem Dict.forall₂_entryMatches_iff {α β : Type} {Q : α → β → Prop} {l : List (String × α)}
    {m : List (String × β)} :
    List.Forall₂ (EntryMatches Q) l m ↔
      l.map (·.1) = m.map (·.1) ∧ ∀ p ∈ (l.map (·.2)).zip (m.map (·.2)), Q p.1 p.2 := by
  induction l generalizing m with
  | nil => cases m <;> simp
  | cons p l ih =>
    cases m with
    | nil => simp
    | cons q m =>
      rw [List.forall₂_cons, ih]
      simp only [EntryMatches, List.map_cons, List.zip_cons_cons, List.cons.injEq,
        List.forall_mem_cons]
      tauto

namespace Object

/-- Prototypes count as equal as optional objects exactly when they do as values. -/
theorem rel_prototype_iff {a b : Object} :
    Option.Rel (fun x y => x = y ∨ R x y) a.prototype b.prototype ↔
      Value.EqualUpTo R a.prototypeValue b.prototypeValue := by
  unfold prototypeValue
  cases a.prototype with
  | none =>
    cases b.prototype with
    | none => exact ⟨fun _ => .null, fun _ => .none⟩
    | some y => exact ⟨nofun, nofun⟩
  | some x =>
    cases b.prototype with
    | none => exact ⟨nofun, nofun⟩
    | some y => rw [Option.rel_some_some, Value.equalUpTo_object_iff]

/-- Two objects are equal up to a relation exactly when their names are the same and all that the
comparison looks at counts as equal. -/
theorem equalUpTo_iff_parts {a b : Object} :
    a.EqualUpTo R b ↔ (a.fields.names == b.fields.names) = true ∧
      ∀ p ∈ a.parts b, Value.EqualUpTo R p.1 p.2 := by
  have hiff : a.EqualUpTo R b ↔ a.fields.Matches (Value.EqualUpTo R) b.fields ∧
      Option.Rel (fun x y => x = y ∨ R x y) a.prototype b.prototype :=
    ⟨fun h => ⟨h.fields, h.prototype⟩, fun h => ⟨h.1, h.2⟩⟩
  rw [hiff, Dict.matches_iff, Dict.forall₂_entryMatches_iff, rel_prototype_iff, beq_iff_eq, parts,
    Dict.names, Dict.names, List.forall_mem_append, List.forall_mem_singleton, and_assoc]

end Object

namespace Store

variable {s : Store}

/-! ## The comparison -/

/-- A comparison that succeeds ends with pairs that vouch for each other: they include those assumed
before, all that was to be compared is equal up to them, and so are the objects of each new pair. -/
theorem exists_of_allEqual {assumed : List (ObjectId × ObjectId)} {todo : List (Value × Value)}
    (h : s.allEqual assumed todo = true) :
    ∃ seen : List (ObjectId × ObjectId), assumed ⊆ seen ∧
      (∀ p ∈ todo, Value.EqualUpTo (fun x y => (x, y) ∈ seen) p.1 p.2) ∧
      ∀ x y, (x, y) ∈ seen → (x, y) ∈ assumed ∨ s.EqualUpTo (fun x y => (x, y) ∈ seen) x y := by
  fun_induction allEqual s assumed todo with
  | case1 assumed => exact ⟨assumed, fun _ hp => hp, by simp, fun _ _ hp => .inl hp⟩
  | case2 assumed y todo ih =>
    obtain ⟨seen, hsub, htodo, hseen⟩ := ih h
    exact ⟨seen, hsub, List.forall_mem_cons.2 ⟨.identical y, htodo⟩, hseen⟩
  | case3 assumed x y todo hne hmem ih =>
    obtain ⟨seen, hsub, htodo, hseen⟩ := ih h
    exact ⟨seen, hsub, List.forall_mem_cons.2 ⟨.object (hsub hmem), htodo⟩, hseen⟩
  | case4 assumed x y todo hne hmem hids hx hy a b ih =>
    obtain ⟨hnames, h⟩ := Bool.and_eq_true_iff.1 h
    obtain ⟨seen, hsub, htodo, hseen⟩ := ih h
    obtain ⟨hparts, htodo⟩ := List.forall_mem_append.1 htodo
    have hab : s.EqualUpTo (fun x y => (x, y) ∈ seen) x y :=
      ⟨a, b, Array.getElem?_eq_getElem hx, Array.getElem?_eq_getElem hy,
        Object.equalUpTo_iff_parts.2 ⟨hnames, hparts⟩⟩
    refine ⟨seen, fun p hp => hsub (List.mem_cons_of_mem _ hp),
      List.forall_mem_cons.2 ⟨.object (hsub List.mem_cons_self), htodo⟩, fun x' y' hp => ?_⟩
    -- The pair that was assumed last is no assumption any more: its parts have been compared.
    rcases hseen x' y' hp with hp | hp
    · rcases List.mem_cons.1 hp with heq | hp
      · obtain ⟨rfl, rfl⟩ := Prod.mk.inj heq
        exact .inr hab
      · exact .inl hp
    · exact .inr hp
  | case5 => nomatch h
  | case6 assumed v w todo hscalar ih =>
    obtain ⟨hvw, h⟩ := Bool.and_eq_true_iff.1 h
    obtain ⟨seen, hsub, htodo, hseen⟩ := ih h
    exact ⟨seen, hsub,
      List.forall_mem_cons.2 ⟨(Value.equalUpTo_iff_sameScalar hscalar).2 hvw, htodo⟩, hseen⟩

/-- A comparison of values that are equal up to a bisimulation succeeds, whatever it assumes. -/
theorem IsBisimulation.allEqual (hR : s.IsBisimulation R) (assumed : List (ObjectId × ObjectId))
    {todo : List (Value × Value)} (h : ∀ p ∈ todo, Value.EqualUpTo R p.1 p.2) :
    s.allEqual assumed todo = true := by
  fun_induction Store.allEqual s assumed todo with
  | case1 => rfl
  | case2 assumed y todo ih => exact ih (List.forall_mem_cons.1 h).2
  | case3 assumed x y todo hne hmem ih => exact ih (List.forall_mem_cons.1 h).2
  | case4 assumed x y todo hne hmem hids hx hy a b ih =>
    obtain ⟨hxy, htodo⟩ := List.forall_mem_cons.1 h
    have hxy : R x y := (Value.equalUpTo_object_iff.1 hxy).resolve_left hne
    obtain ⟨a', b', ha, hb, hab⟩ := (hR x y hxy).resolve_left hne
    obtain rfl : a = a' := Option.some.inj ((Array.getElem?_eq_getElem hx).symm.trans ha)
    obtain rfl : b = b' := Option.some.inj ((Array.getElem?_eq_getElem hy).symm.trans hb)
    obtain ⟨hnames, hparts⟩ := Object.equalUpTo_iff_parts.1 hab
    rw [hnames, Bool.true_and]
    exact ih (List.forall_mem_append.2 ⟨hparts, htodo⟩)
  | case5 assumed x y todo hne hmem hids =>
    have hxy := (List.forall_mem_cons.1 h).1
    have hxy : R x y := (Value.equalUpTo_object_iff.1 hxy).resolve_left hne
    obtain ⟨a, b, ha, hb, -⟩ := (hR x y hxy).resolve_left hne
    exact absurd ⟨(Array.getElem?_eq_some_iff.1 ha).1, (Array.getElem?_eq_some_iff.1 hb).1⟩ hids
  | case6 assumed v w todo hscalar ih =>
    obtain ⟨hvw, htodo⟩ := List.forall_mem_cons.1 h
    rw [(Value.equalUpTo_iff_sameScalar hscalar).1 hvw, Bool.true_and]
    exact ih htodo

/-- Values are equal exactly when they are equal up to some bisimulation. -/
theorem equal_iff_equalUpTo {v w : Value} :
    s.equal v w = true ↔ ∃ R, s.IsBisimulation R ∧ Value.EqualUpTo R v w := by
  constructor
  · intro h
    obtain ⟨seen, -, htodo, hseen⟩ := exists_of_allEqual h
    refine ⟨fun x y => (x, y) ∈ seen, fun x y hxy => .inr ?_, htodo _ List.mem_cons_self⟩
    exact (hseen x y hxy).resolve_left List.not_mem_nil
  · rintro ⟨R, hR, hvw⟩
    exact hR.allEqual [] (List.forall_mem_singleton.2 hvw)

/-- Two objects are equal exactly when some bisimulation relates them. -/
theorem equal_object_iff_bisimulation (s : Store) (a b : ObjectId) :
    s.equal (.object a) (.object b) = true ↔ ∃ R, s.IsBisimulation R ∧ R a b := by
  rw [equal_iff_equalUpTo]
  constructor
  · rintro ⟨R, hR, hab⟩
    rcases Value.equalUpTo_object_iff.1 hab with rfl | hab
    · exact ⟨Eq, fun x y hxy => .inl hxy, rfl⟩
    · exact ⟨R, hR, hab⟩
  · rintro ⟨R, hR, hab⟩
    exact ⟨R, hR, .object hab⟩

end Store

end ObjectLisp
