import ObjectLisp.Proofs.Eval.Trace

/-!
# Objects that refer to older ones only

In a `Layered` store every object refers, by its fields and its prototype, to objects that are older
than itself, and each prototype is a plain animal. Every step that a program can take keeps a store
layered. So objects never refer to each other in a circle, no search along the prototypes comes back
to where it was, and the text of a value is written by rules that know no circles (`Writes`).
-/

namespace ObjectLisp

variable {allowed : Primitive → Prop} {s t : Store}

theorem Object.prototype_eq_of_prototypeValue {o : Object} {id : ObjectId}
    (h : o.prototypeValue = .object id) : o.prototype = some id := by
  unfold prototypeValue at h
  split at h
  · cases h
  · next hprototype =>
    cases h
    exact hprototype

theorem Object.IsValid.prototypeValue {o : Object} (h : o.IsValid allowed s) :
    o.prototypeValue.IsValid allowed s := by
  unfold Object.prototypeValue
  split
  · exact trivial
  · next id hprototype => exact h.prototype id hprototype

namespace Store

/-! ## Layers -/

/-- Every object refers to older objects only, and its prototype is a plain animal. -/
structure Layered (s : Store) : Prop where
  fields : ∀ {i : Nat} {o : Object}, s.objects[i]? = some o → ∀ name id,
    o.fields.get? name = some (.object id) → id.index < i
  prototype : ∀ {i : Nat} {o : Object}, s.objects[i]? = some o → ∀ id, o.prototype = some id →
    id.index < i ∧ ∃ furry, s.objects[id.index]? = some (Primitive.plainAnimal furry)

/-- A new object that refers to what is there makes a new layer. -/
theorem Layered.addObject (h : s.Layered) {o : Object} (ho : o.IsValid allowed s)
    (hprototype : ∀ id, o.prototype = some id →
      ∃ furry, s.objects[id.index]? = some (Primitive.plainAnimal furry)) :
    (s.addObject o).2.Layered := by
  have hcases : ∀ {i : Nat} {a : Object}, (s.addObject o).2.objects[i]? = some a →
      s.objects[i]? = some a ∨ i = s.objects.size ∧ a = o := by
    intro i a ha
    change (s.objects.push o)[i]? = some a at ha
    rw [Array.getElem?_push] at ha
    split at ha
    · next hi =>
      cases ha
      exact .inr ⟨hi, rfl⟩
    · exact .inl ha
  constructor
  · intro i a ha name id hid
    rcases hcases ha with ha | ⟨rfl, rfl⟩
    · exact h.fields ha name id hid
    · exact ho.fields name _ hid
  · intro i a ha id hid
    rcases hcases ha with ha | ⟨rfl, rfl⟩
    · obtain ⟨hlt, furry, hfurry⟩ := h.prototype ha id hid
      exact ⟨hlt, furry, getElem?_push_of_some hfurry⟩
    · obtain ⟨furry, hfurry⟩ := hprototype id hid
      exact ⟨ho.prototype id hid, furry, getElem?_push_of_some hfurry⟩

/-- Every step keeps the layers. -/
theorem Layered.step (h : s.Layered) (hst : s.Step allowed t) : t.Layered := by
  cases hst with
  | frame | closure | binding => exact ⟨h.fields, h.prototype⟩
  | object ho hprototype => exact h.addObject ho (by simp [hprototype])
  | @kindOfAnimal furry fields hfields =>
    have hplain : (Primitive.plainAnimal furry).IsValid allowed s :=
      Primitive.isValid_plainAnimal furry
    have hext := s.extends_addObject (Primitive.plainAnimal furry)
    have hkind : Object.IsValid allowed (s.addObject (Primitive.plainAnimal furry)).2
        { Object.ofFields fields with prototype := some ⟨s.objects.size⟩ } := by
      refine ⟨fun name v hv => ((Object.isValid_ofFields hfields).fields name v hv).mono hext, ?_⟩
      rintro _ ⟨⟩
      simp [Store.addObject]
    refine (h.addObject hplain nofun).addObject hkind ?_
    rintro _ ⟨⟩
    exact ⟨furry, by simp [Store.addObject]⟩

theorem Layered.steps (h : s.Layered) (hst : s.Steps allowed t) : t.Layered := by
  induction hst with
  | refl => exact h
  | tail _ hstep ih => exact ih.step hstep

/-! ## No circles -/

/-- An object has another one as its prototype or in a field. -/
def Refers (s : Store) (a b : ObjectId) : Prop :=
  ∃ o, s.objects[a.index]? = some o ∧
    (o.prototype = some b ∨ ∃ name, o.fields.get? name = some (.object b))

theorem Layered.lt_of_refers (h : s.Layered) {a b : ObjectId} (hab : s.Refers a b) :
    b.index < a.index := by
  obtain ⟨o, ho, hprototype | ⟨name, hfield⟩⟩ := hab
  · exact (h.prototype ho b hprototype).1
  · exact h.fields ho name b hfield

/-- No object refers to itself, not even through others. -/
theorem Layered.acyclic (h : s.Layered) (id : ObjectId) : ¬ Relation.TransGen s.Refers id id := by
  have hlt : ∀ {a b : ObjectId}, Relation.TransGen s.Refers a b → b.index < a.index := by
    intro a b hab
    induction hab with
    | single hab => exact h.lt_of_refers hab
    | tail _ hbc ih => exact Nat.lt_trans (h.lt_of_refers hbc) ih
  exact fun hid => Nat.lt_irrefl _ (hlt hid)

/-- A search along the prototypes ends. -/
theorem Layered.search_ne_cyclic (h : s.Layered) (name : String) {visited : List ObjectId}
    {id : ObjectId} (hvisited : ∀ a ∈ visited, id.index < a.index) :
    s.search name visited id ≠ .cyclic := by
  fun_induction s.search name visited id with
  | case1 visited id hcycle => exact absurd (hvisited id hcycle) (Nat.lt_irrefl _)
  | case2 => exact Search.noConfusion
  | case3 => exact Search.noConfusion
  | case4 visited id hcycle hid o hget next hnext ih =>
    obtain ⟨hlt, -⟩ := h.prototype (Array.getElem?_eq_getElem hid) next hnext
    refine ih fun a ha => ?_
    rcases List.mem_cons.1 ha with rfl | ha
    · exact hlt
    · exact Nat.lt_trans hlt (hvisited a ha)
  | case5 => exact Search.noConfusion

/-! ## Texts -/

/-- The text of a value of the store, in which the objects it refers to are written out. -/
inductive Writes (s : Store) : Value → String → Prop
  | number (x : Float) : Writes s (.number x) (Number.text x)
  | bool (b : Bool) : Writes s (.bool b) (if b then "true" else "false")
  | null : Writes s .null "null"
  | keyword (name : String) : Writes s (.keyword name) (":" ++ name)
  | closure {id : ClosureId} {c : Closure} (hc : s.closures[id.index]? = some c) :
      Writes s (.closure id) ("<closure (" ++ " ".intercalate c.params ++ ")>")
  | primitive (p : Primitive) : Writes s (.primitive p) ("<primitive " ++ p.name ++ ">")
  | object {id : ObjectId} {o : Object} {texts : Value → String}
      (ho : s.objects[id.index]? = some o)
      (hfields : ∀ e ∈ o.fields.entries, Writes s e.2 (texts e.2))
      (hprototype : Writes s o.prototypeValue (texts o.prototypeValue)) :
      Writes s (.object id)
        ("(obj" ++ String.join (o.fields.entries.map fun e => " :" ++ e.1 ++ " " ++ texts e.2)
          ++ " proto:" ++ texts o.prototypeValue ++ ")")

/-- A value has one text. -/
theorem Writes.unique {v : Value} {text text' : String} (h : s.Writes v text)
    (h' : s.Writes v text') : text = text' := by
  induction h generalizing text' with
  | number | bool | null | keyword | primitive =>
    cases h'
    rfl
  | closure hc =>
    cases h' with
    | closure hc' =>
      cases hc.symm.trans hc'
      rfl
  | @object id o texts ho hfields hprototype ihFields ihPrototype =>
    cases h' with
    | @object _ _ texts' ho' hfields' hprototype' =>
      cases ho.symm.trans ho'
      have hmap : (o.fields.entries.map fun e => " :" ++ e.1 ++ " " ++ texts e.2)
          = o.fields.entries.map fun e => " :" ++ e.1 ++ " " ++ texts' e.2 :=
        List.map_congr_left fun e he => by rw [ihFields e he (hfields' e he)]
      rw [hmap, ihPrototype hprototype']

/-- A text stays the text of its value. -/
theorem Writes.steps {v : Value} {text : String} (h : s.Writes v text)
    (hst : s.Steps allowed t) : t.Writes v text := by
  induction h with
  | number => exact .number _
  | bool => exact .bool _
  | null => exact .null
  | keyword => exact .keyword _
  | closure hc => exact .closure (hst.closures hc)
  | primitive => exact .primitive _
  | object ho _ _ ihFields ihPrototype => exact .object (hst.objects ho) ihFields ihPrototype

/-- In a layered store, the writer never meets an object inside itself. -/
theorem Layered.writes_textWithin (h : s.Layered) (hs : s.WellFormed allowed) {v : Value}
    (hv : v.IsValid allowed s) {ancestors : List ObjectId}
    (hancestors : ∀ id, v = .object id → ∀ a ∈ ancestors, id.index < a.index) :
    s.Writes v (s.textWithin ancestors v) := by
  fun_induction s.textWithin ancestors v with
  | case1 => exact .number _
  | case2 => exact .bool true
  | case3 ancestors b hb =>
    rw [Bool.eq_false_iff.2 hb]
    exact .bool false
  | case4 => exact .null
  | case5 => exact .keyword _
  | case6 ancestors id =>
    rw [closure, Array.getD_eq_getD_getElem?, Array.getElem?_eq_getElem hv]
    exact .closure (Array.getElem?_eq_getElem hv)
  | case7 => exact .primitive _
  | case8 ancestors id hcycle => exact absurd (hancestors id rfl id hcycle) (Nat.lt_irrefl _)
  | case9 ancestors id hcycle hid o field ihFields ihPrototype =>
    have ho : s.objects[id.index]? = some o := Array.getElem?_eq_getElem hid
    have hvalid := hs.objects o (Array.getElem_mem hid)
    -- Older objects are inside neither this object nor the ones around it.
    have hinside : ∀ id' : ObjectId, id'.index < id.index →
        ∀ a ∈ id :: ancestors, id'.index < a.index := by
      intro id' hlt a ha
      rcases List.mem_cons.1 ha with rfl | ha
      · exact hlt
      · exact Nat.lt_trans hlt (hancestors id rfl a ha)
    refine .object ho (fun e he => ?_) (ihPrototype ?_ fun id' hid' => ?_)
    · have hget := Dict.get?_eq_some_of_mem he
      refine ihFields e (hvalid.fields _ _ hget) fun id' hid' => ?_
      exact hinside id' (h.fields ho _ id' (hid' ▸ hget))
    · exact hvalid.prototypeValue
    · exact hinside id' (h.prototype ho id' (Object.prototype_eq_of_prototypeValue hid')).1
  | case10 ancestors id hcycle hid => exact absurd hv hid

/-- In a layered store, the text of every valid value is written out. -/
theorem Layered.writes_text (h : s.Layered) (hs : s.WellFormed allowed) {v : Value}
    (hv : v.IsValid allowed s) : s.Writes v (s.text v) :=
  h.writes_textWithin hs hv fun _ _ _ ha => nomatch ha

end Store

end ObjectLisp
