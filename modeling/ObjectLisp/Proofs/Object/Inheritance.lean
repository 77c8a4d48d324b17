import Mathlib.Logic.Relation
import ObjectLisp.Object

/-!
# Where the search for a field ends

`Store.Finds` says where a search along the prototypes ends, by rules that remember nothing of the
way: at the nearest object that owns the field, or at the end of the chain. The search that
remembers what it has visited ends there too, and it reports a circle exactly when the rules lead
nowhere (`Store.search_eq_cyclic_iff`).

The reason is that the search passes from each object to at most one other. So a way that ends never
comes back to an object it has passed (`Store.Finds.not_circle`), and one that comes back goes round
for good.
-/

namespace ObjectLisp

/-- Whatever leads to a place leads to the next one, and so does the place itself. -/
theorem transGen_cons {α : Type} {r : α → α → Prop} {x y : α} {visited : List α}
    (hvisited : ∀ a ∈ visited, Relation.TransGen r a x) (hxy : r x y) :
    ∀ a ∈ x :: visited, Relation.TransGen r a y := by
  intro a ha
  rcases List.mem_cons.1 ha with rfl | ha
  · exact .single hxy
  · exact (hvisited a ha).tail hxy

namespace Store

variable {s : Store} {name : String} {x y z : ObjectId} {r r' : Option Value}
  {visited : List ObjectId}

/-! ## Rules -/

/-- An object does not own the field, and its prototype is asked next. -/
def PassesOn (s : Store) (name : String) (x y : ObjectId) : Prop :=
  ∃ o, s.objects[x.index]? = some o ∧ o.fields.get? name = none ∧ o.prototype = some y

/-- Nobody is asked after this object: it owns the field, or there is no prototype to ask. -/
def Settles (s : Store) (name : String) (x : ObjectId) (r : Option Value) : Prop :=
  match s.objects[x.index]? with
  | none => r = none
  | some o => o.fields.get? name = r ∧ (r = none → o.prototype = none)

/-- The search for a field from an object on ends with the value of the nearest owner, or without
one at the end of the chain. -/
inductive Finds (s : Store) (name : String) : ObjectId → Option Value → Prop
  | settled {x : ObjectId} {r : Option Value} (h : s.Settles name x r) : Finds s name x r
  | inherited {x y : ObjectId} {r : Option Value} (h : s.PassesOn name x y)
      (hy : Finds s name y r) : Finds s name x r

/-- A search is passed on to one object. -/
theorem PassesOn.unique (h : s.PassesOn name x y) (h' : s.PassesOn name x z) : y = z := by
  obtain ⟨o, ho, -, hy⟩ := h
  obtain ⟨o', ho', -, hz⟩ := h'
  obtain rfl : o = o' := Option.some.inj (ho.symm.trans ho')
  exact Option.some.inj (hy.symm.trans hz)

/-- What settles a search does not pass it on. -/
theorem Settles.not_passesOn (h : s.Settles name x r) : ¬ s.PassesOn name x y := by
  rintro ⟨o, ho, hnone, hprototype⟩
  simp only [Settles, ho] at h
  obtain ⟨rfl, hlast⟩ := h
  nomatch hprototype.symm.trans (hlast hnone)

/-- It settles the search in one way. -/
theorem Settles.unique (h : s.Settles name x r) (h' : s.Settles name x r') : r = r' := by
  unfold Settles at h h'
  cases ho : s.objects[x.index]? with
  | none =>
    simp only [ho] at h h'
    exact h.trans h'.symm
  | some o =>
    simp only [ho] at h h'
    exact h.1.symm.trans h'.1

/-- What is found is found from the next object on. -/
theorem Finds.of_passesOn (h : s.Finds name x r) (hxy : s.PassesOn name x y) :
    s.Finds name y r := by
  cases h with
  | settled h => exact absurd hxy h.not_passesOn
  | inherited h hz =>
    obtain rfl := h.unique hxy
    exact hz

/-- A search ends in the same way from further up. -/
theorem Finds.of_reflTransGen (h : s.Finds name x r)
    (hxy : Relation.ReflTransGen (s.PassesOn name) x y) : s.Finds name y r := by
  induction hxy with
  | refl => exact h
  | tail _ hnext ih => exact ih.of_passesOn hnext

/-- A search ends in one way. -/
theorem Finds.unique (h : s.Finds name x r) (h' : s.Finds name x r') : r = r' := by
  induction h with
  | settled h =>
    cases h' with
    | settled h' => exact h.unique h'
    | inherited hnext => exact absurd hnext h.not_passesOn
  | inherited h _ ih => exact ih (h'.of_passesOn h)

/-- A search that ends does not come back to where it began. -/
theorem Finds.not_circle (h : s.Finds name x r) : ¬ Relation.TransGen (s.PassesOn name) x x := by
  induction h with
  | settled h =>
    intro hcircle
    obtain ⟨y, hxy, -⟩ := Relation.TransGen.head'_iff.1 hcircle
    exact h.not_passesOn hxy
  | inherited h _ ih =>
    intro hcircle
    -- A circle through the object goes through the next one too.
    obtain ⟨y, hxy, hback⟩ := Relation.TransGen.head'_iff.1 hcircle
    obtain rfl := h.unique hxy
    exact ih (.tail' hback h)

/-! ## The search -/

/-- What the search finds, or that it finds nothing, is where the rules lead. -/
theorem finds_of_search (h : s.search name visited x = r.elim .missing .found) :
    s.Finds name x r := by
  -- Each way for the search to stop is one for the relation to settle; the case of a circle answers
  -- neither.
  fun_induction s.search name visited x with
  | case1 => cases r <;> nomatch h
  | case2 visited x hcycle hx o v hv =>
    cases r with
    | none => nomatch h
    | some w =>
      cases h
      refine .settled ?_
      simp only [Settles, Array.getElem?_eq_getElem hx]
      exact ⟨hv, nofun⟩
  | case3 visited x hcycle hx o hnone hlast =>
    cases r with
    | none =>
      refine .settled ?_
      simp only [Settles, Array.getElem?_eq_getElem hx]
      exact ⟨hnone, fun _ => hlast⟩
    | some w => nomatch h
  | case4 visited x hcycle hx o hnone y hy ih =>
    exact .inherited ⟨o, Array.getElem?_eq_getElem hx, hnone, hy⟩ (ih h)
  | case5 visited x hcycle hx =>
    cases r with
    | none =>
      refine .settled ?_
      simp only [Settles, Array.getElem?_eq_none (Nat.le_of_not_lt hx)]
    | some w => nomatch h

/-- If the search reports a circle, there is one ahead. -/
theorem exists_circle_of_search
    (hvisited : ∀ a ∈ visited, Relation.TransGen (s.PassesOn name) a x)
    (h : s.search name visited x = .cyclic) :
    ∃ c, Relation.ReflTransGen (s.PassesOn name) x c
      ∧ Relation.TransGen (s.PassesOn name) c c := by
  fun_induction s.search name visited x with
  | case1 visited x hcycle => exact ⟨x, .refl, hvisited x hcycle⟩
  | case2 | case3 | case5 => nomatch h
  | case4 visited x hcycle hx o hnone y hy ih =>
    have hxy : s.PassesOn name x y := ⟨o, Array.getElem?_eq_getElem hx, hnone, hy⟩
    obtain ⟨c, hc, hcircle⟩ := ih (transGen_cons hvisited hxy) h
    exact ⟨c, .head hxy hc, hcircle⟩

/-- The search reports a circle exactly when the rules lead nowhere. -/
theorem search_eq_cyclic_iff : s.search name [] x = .cyclic ↔ ∀ r, ¬ s.Finds name x r := by
  constructor
  · intro h r hfinds
    obtain ⟨c, hc, hcircle⟩ := exists_circle_of_search (by simp) h
    exact (hfinds.of_reflTransGen hc).not_circle hcircle
  · intro h
    cases hsearch : s.search name [] x with
    | found v => exact absurd (finds_of_search (r := some v) hsearch) (h _)
    | missing => exact absurd (finds_of_search (r := none) hsearch) (h _)
    | cyclic => rfl

/-- The search ends where the rules lead. -/
theorem Finds.search_eq (h : s.Finds name x r) :
    s.search name [] x = r.elim .missing .found := by
  cases hsearch : s.search name [] x with
  | found v =>
    obtain rfl := h.unique (finds_of_search (r := some v) hsearch)
    rfl
  | missing =>
    obtain rfl := h.unique (finds_of_search (r := none) hsearch)
    rfl
  | cyclic => exact absurd h (search_eq_cyclic_iff.1 hsearch r)

/-! ## Fields -/

/-- A search that finds a value hands it back. -/
theorem Finds.lookup_eq_ok {v : Value} (h : s.Finds name x (some v)) :
    s.lookup x name = .ok v := by
  rw [lookup, h.search_eq]
  rfl

/-- One that finds nothing is an error with the text of the object it began at. -/
theorem Finds.lookup_eq_fieldNotFound (h : s.Finds name x none) :
    s.lookup x name = .error (.fieldNotFound name (s.text (.object x))) := by
  rw [lookup, h.search_eq]
  rfl

/-- One that does not end is an error that names the field. -/
theorem lookup_eq_prototypeCycle (h : ∀ r, ¬ s.Finds name x r) :
    s.lookup x name = .error (.prototypeCycle name) := by
  rw [lookup, search_eq_cyclic_iff.2 h]

end Store

end ObjectLisp
