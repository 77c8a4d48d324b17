import Mathlib
import ObjectLisp.Proofs.Number.Printed
import ObjectLisp.Proofs.Object.Equivalence
import ObjectLisp.Proofs.Object.Inheritance
import ObjectLisp.Proofs.Object.Layering
import ObjectLisp.Proofs.Simulation.Object

/-!
# Equal objects cannot be told apart

Equal objects give equal values under every field name, or lack the field alike, and if nothing
refers to itself from one of them on, then it is so for the other one and they have the same text.

Equality, the search for a field and the writer walk through the objects in three ways. A
bisimulation is an invariant of the other two: side by side, two searches pass on from related
objects to related ones, and two writers descend to related ones. Circles of different lengths may
be equal, so the two searches need not see an object again at the same time, and the search is taken
by its rules (`Store.Finds`), which remember nothing.
-/

namespace ObjectLisp

variable {R : ObjectId → ObjectId → Prop}

/-! ## Alike values and objects -/

/-- Values that are the same or count as equal. The undefined number is like itself although it does
not count as equal to itself. -/
def Value.Alike (R : ObjectId → ObjectId → Prop) (v w : Value) : Prop := v = w ∨ v.EqualUpTo R w

/-- Objects with the same field names, and with field values and prototypes that are alike. -/
structure Object.Alike (R : ObjectId → ObjectId → Prop) (a b : Object) : Prop where
  fields : a.fields.Matches (Value.Alike R) b.fields
  prototype : Option.Rel (fun x y => x = y ∨ R x y) a.prototype b.prototype

/-- Two objects are alike if they are one or are related. -/
theorem Value.alike_object_iff {x y : ObjectId} :
    Value.Alike R (.object x) (.object y) ↔ x = y ∨ R x y := by
  rw [Value.Alike, Value.equalUpTo_object_iff, Value.object.injEq, or_self_left]

/-- What is like an object is an object. -/
theorem Value.Alike.exists_object {w : Value} {x : ObjectId} (h : Value.Alike R (.object x) w) :
    ∃ y, w = .object y := by
  rcases h with rfl | h
  · exact ⟨x, rfl⟩
  · cases h with
    | identical => exact ⟨x, rfl⟩
    | object => exact ⟨_, rfl⟩

/-- An object is like itself. -/
theorem Object.Alike.refl (a : Object) : a.Alike R a where
  fields _ := optionRel_self fun _ _ => .inl rfl
  prototype := optionRel_self fun _ _ => .inl rfl

/-- Objects that are equal up to a relation are alike. -/
theorem Object.EqualUpTo.alike {a b : Object} (h : a.EqualUpTo R b) : a.Alike R b where
  fields := h.fields.imp fun _ _ => .inr
  prototype := h.prototype

/-- The prototypes of like objects are alike as values. -/
theorem Object.Alike.prototypeValue {a b : Object} (h : a.Alike R b) :
    a.prototypeValue.Alike R b.prototypeValue :=
  .inr (Object.rel_prototype_iff.1 h.prototype)

namespace Store

variable {s : Store} {name : String} {x y : ObjectId} {r : Option Value}

/-- The objects of identities that count as equal are alike, or both are missing. -/
theorem IsBisimulation.alike (hR : s.IsBisimulation R) (hxy : x = y ∨ R x y) :
    Option.Rel (Object.Alike R) s.objects[x.index]? s.objects[y.index]? := by
  rcases hR.eq_or_equalUpTo hxy with rfl | ⟨a, b, ha, hb, hab⟩
  · exact optionRel_self fun a _ => .refl a
  · rw [ha, hb]
    exact .some hab.alike

/-- Alike values are equal, or both are the undefined number. -/
theorem IsBisimulation.equal_of_alike (hR : s.IsBisimulation R) {v w : Value}
    (hvw : v.Alike R w) :
    s.equal v w = true
      ∨ ∃ x y, v = .number x ∧ w = .number y ∧ x.isNaN = true ∧ y.isNaN = true := by
  rcases hvw with rfl | hvw
  · cases v with
    | number x =>
      cases hx : x.isNaN with
      | false => exact .inl (equal_number_self_iff.2 hx)
      | true => exact .inr ⟨x, x, rfl, rfl, hx, hx⟩
    | bool | null | keyword | closure | primitive | object => exact .inl (equal_self nofun)
  · exact .inl (equal_iff_equalUpTo.2 ⟨R, hR, hvw⟩)

/-! ## Fields -/

/-- From equal objects the search ends alike, if it ends for one of them. -/
theorem IsBisimulation.finds (hR : s.IsBisimulation R) (hxy : x = y ∨ R x y)
    (h : s.Finds name x r) : ∃ r', s.Finds name y r' ∧ Option.Rel (Value.Alike R) r r' := by
  -- The two searches go up together, and they stop at the same height.
  induction h generalizing y with
  | @settled x r h =>
    have hobjects := hR.alike hxy
    unfold Settles at h
    cases ha : s.objects[x.index]? with
    | none =>
      simp only [ha] at h
      have hb := (eq_none_iff_of_optionRel hobjects).1 ha
      refine ⟨none, .settled ?_, by rw [h]; exact .none⟩
      simp only [Settles, hb]
    | some a =>
      rw [ha] at hobjects
      obtain ⟨b, hb, hab⟩ := exists_of_optionRel_some hobjects
      simp only [ha] at h
      obtain ⟨rfl, hlast⟩ := h
      refine ⟨b.fields.get? name, .settled ?_, hab.fields name⟩
      simp only [Settles, hb, true_and]
      intro hnone
      have hprototype := hlast ((eq_none_iff_of_optionRel (hab.fields name)).2 hnone)
      exact (eq_none_iff_of_optionRel hab.prototype).1 hprototype
  | @inherited x x' r hnext _ ih =>
    obtain ⟨a, ha, hnone, hprototype⟩ := hnext
    -- The first object passes the search on, so it has a prototype and not the field, and the
    -- second one is like it.
    have hobjects := hR.alike hxy
    rw [ha] at hobjects
    obtain ⟨b, hb, hab⟩ := exists_of_optionRel_some hobjects
    have hprototypes := hab.prototype
    rw [hprototype] at hprototypes
    obtain ⟨y', hprototype', hnext⟩ := exists_of_optionRel_some hprototypes
    obtain ⟨r', hfinds, hr⟩ := ih hnext
    have hnone' := (eq_none_iff_of_optionRel (hab.fields name)).1 hnone
    exact ⟨r', .inherited ⟨b, hb, hnone', hprototype'⟩ hfinds, hr⟩

/-- The search ends from both of two equal objects or from none. -/
theorem IsBisimulation.not_finds (hR : s.IsBisimulation R) (hxy : x = y ∨ R x y)
    (h : ∀ r, ¬ s.Finds name x r) (r : Option Value) : ¬ s.Finds name y r := by
  intro hfinds
  obtain ⟨r', hfinds', -⟩ := hR.swap.finds (hxy.imp_left Eq.symm) hfinds
  exact h r' hfinds'

/-! ## Circles -/

/-- No object that can be reached from an object refers to itself, not even through others. -/
def AcyclicFrom (s : Store) (x : ObjectId) : Prop :=
  ∀ c, Relation.ReflTransGen s.Refers x c → ¬ Relation.TransGen s.Refers c c

/-- Where no circle can be reached, none can be reached from further on. -/
theorem AcyclicFrom.of_refers (h : s.AcyclicFrom x) (hxy : s.Refers x y) : s.AcyclicFrom y :=
  fun c hc => h c (.head hxy hc)

/-- Where no circle can be reached, the start lies on none. -/
theorem AcyclicFrom.not_circle (h : s.AcyclicFrom x) : ¬ Relation.TransGen s.Refers x x :=
  h x .refl

/-- Where there is no circle, one can only go down so many times. -/
theorem AcyclicFrom.acc (h : s.AcyclicFrom x) : Acc (flip s.Refers) x := by
  suffices hwalk : ∀ visited, (∀ c ∈ visited, Relation.TransGen s.Refers c x) →
      Acc (flip s.Refers) x from hwalk [] (by simp)
  -- By induction on how many objects are not among those above.
  intro visited hvisited
  induction hn : unvisited s.objectIds visited using Nat.strongRecOn generalizing visited x with
  | ind n ih =>
    refine .intro x fun y hxy => ?_
    have hnew : x ∉ visited := fun hx => h.not_circle (hvisited x hx)
    have hx : x ∈ s.objectIds := by
      obtain ⟨o, ho, -⟩ := hxy
      exact mem_objectIds.2 (Array.getElem?_eq_some_iff.1 ho).1
    refine ih _ ?_ (h.of_refers hxy) (x :: visited) (transGen_cons hvisited hxy) rfl
    exact hn ▸ unvisited_cons_lt hx hnew

/-- Where every way ends, no circle can be reached. -/
theorem acyclicFrom_of_acc (h : Acc (flip s.Refers) x) : s.AcyclicFrom x := by
  induction h with
  | intro x _ ih =>
    intro c hc hcircle
    -- The circle is ahead of an object that this one refers to, also if this one is on it.
    obtain ⟨y, hxy, hyc⟩ : ∃ y, s.Refers x y ∧ Relation.ReflTransGen s.Refers y c := by
      rcases hc.cases_head with rfl | hc
      · exact Relation.TransGen.head'_iff.1 hcircle
      · exact hc
    exact ih y hxy c hyc hcircle

/-- What one of two equal objects refers to equals something that the other one refers to. -/
theorem IsBisimulation.exists_refers (hR : s.IsBisimulation R) (hxy : x = y ∨ R x y)
    {x' : ObjectId} (h : s.Refers x x') : ∃ y', s.Refers y y' ∧ (x' = y' ∨ R x' y') := by
  obtain ⟨a, ha, hrefers⟩ := h
  have hobjects := hR.alike hxy
  rw [ha] at hobjects
  obtain ⟨b, hb, hab⟩ := exists_of_optionRel_some hobjects
  rcases hrefers with hprototype | ⟨name, hfield⟩
  · have hprototypes := hab.prototype
    rw [hprototype] at hprototypes
    obtain ⟨y', hprototype', hnext⟩ := exists_of_optionRel_some hprototypes
    exact ⟨y', ⟨b, hb, .inl hprototype'⟩, hnext⟩
  · have hfields := hab.fields name
    rw [hfield] at hfields
    obtain ⟨w, hfield', hnext⟩ := exists_of_optionRel_some hfields
    obtain ⟨y', rfl⟩ := hnext.exists_object
    exact ⟨y', ⟨b, hb, .inr ⟨name, hfield'⟩⟩, Value.alike_object_iff.1 hnext⟩

/-- Equal objects lead to a circle both or none. -/
theorem IsBisimulation.acc (hR : s.IsBisimulation R) (hxy : x = y ∨ R x y)
    (h : Acc (flip s.Refers) x) : Acc (flip s.Refers) y := by
  induction h generalizing y with
  | intro x _ ih =>
    refine .intro y fun y' hy' => ?_
    obtain ⟨x', hx', hnext⟩ := hR.swap.exists_refers (hxy.imp_left Eq.symm) hy'
    exact ih x' hx' (hnext.imp_left Eq.symm)

/-! ## Texts -/

/-- The text of an object inside objects among which it is not. -/
theorem textWithin_object {ancestors : List ObjectId} {o : Object} (hnew : x ∉ ancestors)
    (ho : s.objects[x.index]? = some o) :
    s.textWithin ancestors (.object x) = "(obj"
      ++ String.join (o.fields.entries.map fun e =>
          " :" ++ e.1 ++ " " ++ s.textWithin (x :: ancestors) e.2)
      ++ " proto:" ++ s.textWithin (x :: ancestors) o.prototypeValue ++ ")" := by
  obtain ⟨hx, rfl⟩ := Array.getElem?_eq_some_iff.1 ho
  rw [textWithin, dif_neg hnew, dif_pos hx]

/-- Alike values have the same text, if they have when they are objects. -/
theorem textWithin_eq_of_alike {xs ys : List ObjectId} {v w : Value} (hvw : v.Alike R w)
    (hobject : ∀ x y, v = .object x → w = .object y →
      s.textWithin xs (.object x) = s.textWithin ys (.object y)) :
    s.textWithin xs v = s.textWithin ys w := by
  rcases hvw with rfl | hvw
  · cases v with
    | object x => exact hobject x x rfl rfl
    | number | bool | null | keyword | closure | primitive => rw [textWithin, textWithin]
  · cases hvw with
    | number hxy => rw [textWithin, textWithin, Number.text_eq_of_beq hxy]
    | primitive hpq => rw [textWithin, textWithin, hpq]
    | bool | null | keyword | closure => rw [textWithin, textWithin]
    | identical x => exact hobject x x rfl rfl
    | @object x y => exact hobject x y rfl rfl

/-- Equal objects have the same text where there is no circle, inside any objects above them. -/
theorem IsBisimulation.textWithin_eq (hR : s.IsBisimulation R) (hxy : x = y ∨ R x y)
    (hx : Acc (flip s.Refers) x) {xs ys : List ObjectId}
    (hxs : ∀ c ∈ xs, Relation.TransGen s.Refers c x)
    (hys : ∀ c ∈ ys, Relation.TransGen s.Refers c y) :
    s.textWithin xs (.object x) = s.textWithin ys (.object y) := by
  induction hx generalizing y xs ys with
  | intro x hacc ih =>
    have hx : s.AcyclicFrom x := acyclicFrom_of_acc (.intro x hacc)
    have hy : s.AcyclicFrom y := acyclicFrom_of_acc (hR.acc hxy (.intro x hacc))
    have hnewx : x ∉ xs := fun hmem => hx.not_circle (hxs x hmem)
    have hnewy : y ∉ ys := fun hmem => hy.not_circle (hys y hmem)
    have hobjects := hR.alike hxy
    cases ha : s.objects[x.index]? with
    | none =>
      have hb := (eq_none_iff_of_optionRel hobjects).1 ha
      rw [textWithin, textWithin, dif_neg hnewx, dif_neg hnewy,
        dif_neg (Nat.not_lt.2 (Array.getElem?_eq_none_iff.1 ha)),
        dif_neg (Nat.not_lt.2 (Array.getElem?_eq_none_iff.1 hb))]
    | some a =>
      rw [ha] at hobjects
      obtain ⟨b, hb, hab⟩ := exists_of_optionRel_some hobjects
      -- One level down, the two objects are among those above.
      have hinside : ∀ v w, v.Alike R w → (∀ x', v = .object x' → s.Refers x x') →
          (∀ y', w = .object y' → s.Refers y y') →
          s.textWithin (x :: xs) v = s.textWithin (y :: ys) w := by
        intro v w hvw hv hw
        refine textWithin_eq_of_alike hvw fun x' y' hx' hy' => ?_
        subst hx' hy'
        have hxx' := hv x' rfl
        have hyy' := hw y' rfl
        exact ih x' hxx' (Value.alike_object_iff.1 hvw) (transGen_cons hxs hxx')
          (transGen_cons hys hyy')
      have hfields : a.fields.Matches
          (fun v w => s.textWithin (x :: xs) v = s.textWithin (y :: ys) w) b.fields := by
        refine hab.fields.imp_of_get? fun name v w hv hw hvw => hinside v w hvw ?_ ?_
        · rintro x' rfl
          exact ⟨a, ha, .inr ⟨name, hv⟩⟩
        · rintro y' rfl
          exact ⟨b, hb, .inr ⟨name, hw⟩⟩
      have hprototype : s.textWithin (x :: xs) a.prototypeValue
          = s.textWithin (y :: ys) b.prototypeValue := by
        refine hinside _ _ hab.prototypeValue (fun x' hx' => ?_) fun y' hy' => ?_
        · exact ⟨a, ha, .inl (Object.prototype_eq_of_prototypeValue hx')⟩
        · exact ⟨b, hb, .inl (Object.prototype_eq_of_prototypeValue hy')⟩
      have hmap : (a.fields.entries.map fun e =>
            " :" ++ e.1 ++ " " ++ s.textWithin (x :: xs) e.2)
          = b.fields.entries.map fun e =>
            " :" ++ e.1 ++ " " ++ s.textWithin (y :: ys) e.2 :=
        map_eq_of_forall₂ (Dict.matches_iff.1 hfields) fun p q hpq => by rw [hpq.1, hpq.2]
      rw [textWithin_object hnewx ha, textWithin_object hnewy hb, hmap, hprototype]

/-! ## Indistinguishability -/

/-- Equal objects cannot be told apart by their fields: under each name both have values that are
equal or both undefined numbers, or both lack the field, or the prototypes of both run in a circle.
And if there is no circle to be reached from the one, then there is none from the other, and both
have the same text. -/
theorem equal_objects_indistinguishable (s : Store) {a b : ObjectId}
    (h : s.equal (.object a) (.object b) = true) :
    (∀ name,
      (∃ v w, s.lookup a name = .ok v ∧ s.lookup b name = .ok w
        ∧ (s.equal v w = true
          ∨ ∃ x y, v = .number x ∧ w = .number y ∧ x.isNaN = true ∧ y.isNaN = true))
      ∨ (s.lookup a name = .error (.fieldNotFound name (s.text (.object a)))
        ∧ s.lookup b name = .error (.fieldNotFound name (s.text (.object b))))
      ∨ (s.lookup a name = .error (.prototypeCycle name)
        ∧ s.lookup b name = .error (.prototypeCycle name)))
    ∧ (s.AcyclicFrom a → s.AcyclicFrom b ∧ s.text (.object a) = s.text (.object b)) := by
  obtain ⟨R, hR, hvalues⟩ := equal_iff_equalUpTo.1 h
  have hab : a = b ∨ R a b := Value.equalUpTo_object_iff.1 hvalues
  refine ⟨fun name => ?_, fun ha => ?_⟩
  · -- Either the search from the first object ends, and so does the other one, or neither does.
    by_cases hends : ∃ r, s.Finds name a r
    · obtain ⟨r, ha⟩ := hends
      obtain ⟨r', hb, hr⟩ := hR.finds hab ha
      cases hr with
      | some hvw =>
        exact .inl ⟨_, _, ha.lookup_eq_ok, hb.lookup_eq_ok, hR.equal_of_alike hvw⟩
      | none => exact .inr (.inl ⟨ha.lookup_eq_fieldNotFound, hb.lookup_eq_fieldNotFound⟩)
    · have ha : ∀ r, ¬ s.Finds name a r := not_exists.1 hends
      exact .inr (.inr ⟨lookup_eq_prototypeCycle ha,
        lookup_eq_prototypeCycle (hR.not_finds hab ha)⟩)
  · exact ⟨acyclicFrom_of_acc (hR.acc hab ha.acc),
      hR.textWithin_eq hab ha.acc (by simp) (by simp)⟩

/-- Add a dog of the given breed, and the animal that it inherits from. -/
def addDog (s : Store) (breed : Float) : Store :=
  ((s.addObject (Primitive.plainAnimal true)).2.addObject
    { Object.ofFields [("breed", .number breed), ("noise", .keyword "woof")] with
      prototype := some ⟨s.objects.size⟩ }).2

/-- Two dogs of their own animals, of breeds that differ in the sign of zero. -/
def twoDogs : Store := (empty.addDog 0).addDog (-0)

/-- The empty store is layered. -/
theorem layered_empty : empty.Layered := ⟨nofun, nofun⟩

/-- So is the store with two dogs and their animals. -/
theorem layered_twoDogs : twoDogs.Layered := by
  have hfields : ∀ (s : Store) (breed : Float),
      ∀ e ∈ [("breed", Value.number breed), ("noise", .keyword "woof")],
        e.2.IsValid (fun _ => True) s := by
    intro s breed
    simp [Value.IsValid]
  have hone := layered_empty.step (.kindOfAnimal true (hfields _ 0))
  exact hone.step (.kindOfAnimal true (hfields _ (-0)))

/-- Each dog with the other one, and each animal with the other one, are a bisimulation. -/
theorem isBisimulation_twoDogs :
    twoDogs.IsBisimulation fun x y => x = ⟨0⟩ ∧ y = ⟨2⟩ ∨ x = ⟨1⟩ ∧ y = ⟨3⟩ := by
  rintro x y (⟨rfl, rfl⟩ | ⟨rfl, rfl⟩)
  · refine .inr ⟨_, _, rfl, rfl, Dict.matches_iff.2 ?_, .none⟩
    exact .cons ⟨rfl, .bool true⟩ (.cons ⟨rfl, .number (by decide +kernel)⟩
      (.cons ⟨rfl, .keyword "grunt"⟩ .nil))
  · refine .inr ⟨_, _, rfl, rfl, Dict.matches_iff.2 ?_, .some (.inr (.inl ⟨rfl, rfl⟩))⟩
    exact .cons ⟨rfl, .number (by decide +kernel)⟩ (.cons ⟨rfl, .keyword "woof"⟩ .nil)

/-- The two dogs are equal. They refer to nothing in a circle and have the same text, and what the
one answers about its legs, which are its animal's, the other answers too. -/
theorem equal_dogs_indistinguishable :
    twoDogs.equal (.object ⟨1⟩) (.object ⟨3⟩) = true
    ∧ twoDogs.AcyclicFrom ⟨1⟩
    ∧ twoDogs.AcyclicFrom ⟨3⟩
    ∧ twoDogs.text (.object ⟨1⟩) = twoDogs.text (.object ⟨3⟩)
    ∧ ∃ w, twoDogs.lookup ⟨3⟩ "legs" = .ok w ∧ twoDogs.equal (.number 4) w = true := by
  have hequal : twoDogs.equal (.object ⟨1⟩) (.object ⟨3⟩) = true :=
    equal_iff_equalUpTo.2 ⟨_, isBisimulation_twoDogs, .object (.inr ⟨rfl, rfl⟩)⟩
  have hacyclic : twoDogs.AcyclicFrom ⟨1⟩ := fun c _ => layered_twoDogs.acyclic c
  have hlegs : twoDogs.lookup ⟨1⟩ "legs" = .ok (.number 4) := by
    have hpasses : twoDogs.PassesOn "legs" ⟨1⟩ ⟨0⟩ := ⟨_, rfl, rfl, rfl⟩
    have hsettles : twoDogs.Settles "legs" ⟨0⟩ (some (.number 4)) := ⟨rfl, nofun⟩
    exact (Finds.inherited hpasses (.settled hsettles)).lookup_eq_ok
  obtain ⟨hlookup, htext⟩ := equal_objects_indistinguishable twoDogs hequal
  refine ⟨hequal, hacyclic, (htext hacyclic).1, (htext hacyclic).2, ?_⟩
  rcases hlookup "legs" with ⟨v, w, hv, hw, hvw⟩ | ⟨hv, -⟩ | ⟨hv, -⟩
  · cases hlegs.symm.trans hv
    refine ⟨w, hw, hvw.resolve_right ?_⟩
    rintro ⟨x, y, hx, -, hnan, -⟩
    cases hx
    exact absurd hnan (by decide +kernel)
  · nomatch hlegs.symm.trans hv
  · nomatch hlegs.symm.trans hv

end Store

end ObjectLisp
