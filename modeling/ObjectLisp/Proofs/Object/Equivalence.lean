import Mathlib
import ObjectLisp.Object
import ObjectLisp.Proofs.Object.Bisimulation

/-!
# Equality is an equivalence

Equality of values is symmetric and transitive, and reflexive but for the undefined number. Objects
are equal when some bisimulation relates them, so the proof works on bisimulations: turned round
they are bisimulations again (`Store.IsBisimulation.swap`), and so are two of them one after the
other (`Store.IsBisimulation.chained`).

An object counts as equal to itself without a look at its fields. This is why an object equals
itself although an undefined number in it does not, and why two bisimulations are put together with
a detour over identical objects in mind: each of the two steps may stay where it is.
-/

namespace ObjectLisp

variable {R R' T : ObjectId → ObjectId → Prop}

/-- Optional values that are related by two relations in turn are related by what these add up
to. -/
theorem optionRel_trans {α β γ : Type} {P : α → β → Prop} {P' : β → γ → Prop} {P'' : α → γ → Prop}
    (hP : ∀ a b c, P a b → P' b c → P'' a c) {a : Option α} {b : Option β} {c : Option γ}
    (h : Option.Rel P a b) (h' : Option.Rel P' b c) : Option.Rel P'' a c := by
  cases h with
  | none =>
    cases h'
    exact .none
  | some hab =>
    cases h' with
    | some hbc => exact .some (hP _ _ _ hab hbc)

/-- Objects from which a step of `R` and then one of `R'` leads to the other, where each step may
stay at the same object. -/
def Chained (R R' : ObjectId → ObjectId → Prop) (x z : ObjectId) : Prop :=
  ∃ y, (x = y ∨ R x y) ∧ (y = z ∨ R' y z)

/-! ## Values -/

namespace Value.EqualUpTo

variable {u v w : Value}

/-- Values equal up to a relation are equal up to a larger one. -/
theorem mono (hRT : ∀ x y, R x y → T x y) (h : EqualUpTo R v w) : EqualUpTo T v w := by
  cases h with
  | number hxy => exact .number hxy
  | bool b => exact .bool b
  | null => exact .null
  | keyword name => exact .keyword name
  | closure id => exact .closure id
  | primitive hpq => exact .primitive hpq
  | identical id => exact .identical id
  | object hxy => exact .object (hRT _ _ hxy)

/-- Equality up to a relation goes both ways, up to the relation turned round. -/
theorem swap (h : EqualUpTo R v w) : EqualUpTo (flip R) w v := by
  cases h with
  | number hxy => exact .number (BEq.symm hxy)
  | bool b => exact .bool b
  | null => exact .null
  | keyword name => exact .keyword name
  | closure id => exact .closure id
  | primitive hpq => exact .primitive hpq.symm
  | identical id => exact .identical id
  | object hxy => exact .object hxy

/-- Values that count as equal to a third one count as equal by the chained relation. -/
theorem trans (h : EqualUpTo R u v) (h' : EqualUpTo R' v w) : EqualUpTo (Chained R R') u w := by
  cases h with
  | number hxy =>
    cases h' with
    | number hyz => exact .number (BEq.trans hxy hyz)
  | primitive hpq =>
    cases h' with
    | primitive hqr => exact .primitive (hpq.trans hqr)
  | bool b =>
    cases h'
    exact .bool b
  | null =>
    cases h'
    exact .null
  | keyword name =>
    cases h'
    exact .keyword name
  | closure id =>
    cases h'
    exact .closure id
  | identical y =>
    -- An object may be met as itself on either side, which the chained relation allows for.
    cases h' with
    | identical => exact .identical y
    | object hyz => exact .object ⟨y, .inl rfl, .inr hyz⟩
  | @object x y hxy =>
    cases h' with
    | identical => exact .object ⟨y, .inr hxy, .inl rfl⟩
    | object hyz => exact .object ⟨y, .inr hxy, .inr hyz⟩

end Value.EqualUpTo

/-! ## Objects -/

namespace Object.EqualUpTo

variable {a b c : Object}

/-- Objects equal up to a relation are equal up to a larger one. -/
theorem mono (hRT : ∀ x y, R x y → T x y) (h : a.EqualUpTo R b) : a.EqualUpTo T b where
  fields := h.fields.imp fun _ _ => Value.EqualUpTo.mono hRT
  prototype := optionRel_imp (fun x y => Or.imp_right (hRT x y)) h.prototype

/-- Objects equal up to a relation are equal in the other order, up to the relation turned round. -/
theorem swap (h : a.EqualUpTo R b) : b.EqualUpTo (flip R) a where
  fields name := optionRel_imp (fun _ _ hvw => hvw.swap) (optionRel_swap (h.fields name))
  prototype := optionRel_imp (fun _ _ => Or.imp_left Eq.symm) (optionRel_swap h.prototype)

/-- Two equalities of objects make one, up to the relations one after the other. -/
theorem trans (h : a.EqualUpTo R b) (h' : b.EqualUpTo R' c) : a.EqualUpTo (Chained R R') c where
  fields name := optionRel_trans (fun _ _ _ huv hvw => huv.trans hvw) (h.fields name)
    (h'.fields name)
  prototype := optionRel_trans (fun _ y _ hxy hyz => .inr ⟨y, hxy, hyz⟩) h.prototype h'.prototype

end Object.EqualUpTo

/-! ## Bisimulations -/

namespace Store

variable {s : Store} {x y z : ObjectId}

/-- Objects of a store equal up to a relation are equal up to a larger one. -/
theorem EqualUpTo.mono (hRT : ∀ x y, R x y → T x y) (h : s.EqualUpTo R x y) :
    s.EqualUpTo T x y := by
  obtain ⟨a, b, ha, hb, hab⟩ := h
  exact ⟨a, b, ha, hb, hab.mono hRT⟩

/-- The same holds in the other order, up to the relation turned round. -/
theorem EqualUpTo.swap (h : s.EqualUpTo R x y) : s.EqualUpTo (flip R) y x := by
  obtain ⟨a, b, ha, hb, hab⟩ := h
  exact ⟨b, a, hb, ha, hab.swap⟩

/-- The same holds of three objects, up to the relations one after the other. -/
theorem EqualUpTo.trans (h : s.EqualUpTo R x y) (h' : s.EqualUpTo R' y z) :
    s.EqualUpTo (Chained R R') x z := by
  obtain ⟨a, b, ha, hb, hab⟩ := h
  obtain ⟨b', c, hb', hc, hbc⟩ := h'
  obtain rfl : b = b' := Option.some.inj (hb.symm.trans hb')
  exact ⟨a, c, ha, hc, hab.trans hbc⟩

namespace IsBisimulation

/-- Objects that count as equal are identical, or equal up to the bisimulation. -/
theorem eq_or_equalUpTo (hR : s.IsBisimulation R) (h : x = y ∨ R x y) :
    x = y ∨ s.EqualUpTo R x y :=
  h.elim .inl (hR x y)

/-- A bisimulation turned round is one. -/
theorem swap (hR : s.IsBisimulation R) : s.IsBisimulation (flip R) := by
  intro x y hxy
  exact (hR y x hxy).imp Eq.symm EqualUpTo.swap

/-- Two bisimulations one after the other are one. -/
theorem chained (hR : s.IsBisimulation R) (hR' : s.IsBisimulation R') :
    s.IsBisimulation (Chained R R') := by
  rintro x z ⟨y, hxy, hyz⟩
  rcases hR.eq_or_equalUpTo hxy with rfl | hxy
  · rcases hR'.eq_or_equalUpTo hyz with rfl | hyz
    · exact .inl rfl
    · exact .inr (hyz.mono fun a b hab => ⟨a, .inl rfl, .inr hab⟩)
  · rcases hR'.eq_or_equalUpTo hyz with rfl | hyz
    · exact .inr (hxy.mono fun a b hab => ⟨b, .inr hab, .inl rfl⟩)
    · exact .inr (hxy.trans hyz)

end IsBisimulation

/-! ## Equality -/

/-- Equality does not depend on the order of the values. -/
theorem equal_symm {v w : Value} (h : s.equal v w = true) : s.equal w v = true := by
  obtain ⟨R, hR, hvw⟩ := equal_iff_equalUpTo.1 h
  exact equal_iff_equalUpTo.2 ⟨flip R, hR.swap, hvw.swap⟩

/-- Two values that equal a third one are equal. -/
theorem equal_trans {u v w : Value} (h : s.equal u v = true) (h' : s.equal v w = true) :
    s.equal u w = true := by
  obtain ⟨R, hR, huv⟩ := equal_iff_equalUpTo.1 h
  obtain ⟨R', hR', hvw⟩ := equal_iff_equalUpTo.1 h'
  exact equal_iff_equalUpTo.2 ⟨Chained R R', hR.chained hR', huv.trans hvw⟩

/-- A number equals itself unless it is undefined. -/
theorem equal_number_self_iff {x : Float} :
    s.equal (.number x) (.number x) = true ↔ x.isNaN = false := by
  rw [equal_iff_equalUpTo, Float.isNaN_eq_decide_eq_nan, decide_eq_false_iff_not]
  constructor
  · rintro ⟨R, -, hx⟩
    cases hx with
    | number hx => exact Float.beq_self_iff.1 hx
  · intro hx
    exact ⟨fun _ _ => False, fun _ _ h => h.elim, .number (Float.beq_self_iff.2 hx)⟩

/-- A value that is no number equals itself. -/
theorem equal_self {v : Value} (hv : ∀ x, v ≠ .number x) : s.equal v v = true := by
  refine equal_iff_equalUpTo.2 ⟨fun _ _ => False, fun _ _ h => h.elim, ?_⟩
  cases v with
  | number x => exact absurd rfl (hv x)
  | bool b => exact .bool b
  | null => exact .null
  | keyword name => exact .keyword name
  | closure id => exact .closure id
  | primitive p => exact .primitive rfl
  | object id => exact .identical id

/-- Equality is symmetric and transitive, and every value equals itself but the undefined number.
An object equals itself whatever is in it. -/
theorem equal_equivalence (s : Store) :
    (∀ v, s.equal v v = true ↔ ∀ x, v = .number x → x.isNaN = false)
    ∧ (∀ v w, s.equal v w = true → s.equal w v = true)
    ∧ (∀ u v w, s.equal u v = true → s.equal v w = true → s.equal u w = true)
    ∧ ∀ id, s.equal (.object id) (.object id) = true := by
  refine ⟨fun v => ?_, fun v w => equal_symm, fun u v w => equal_trans, fun id => equal_self nofun⟩
  cases v with
  | number x => simp [equal_number_self_iff]
  | bool | null | keyword | closure | primitive | object => simp [equal_self]

/-- An object that refers to the object at a place by a field and as its prototype. -/
def link (next : Nat) : Object :=
  { Object.ofFields [("next", .object ⟨next⟩)] with prototype := some ⟨next⟩ }

/-- Circles of one, of two and of three objects, and an object that holds an undefined number. -/
def circles : Store where
  frames := #[]
  closures := #[]
  objects := #[link 0, link 2, link 1, link 4, link 5, link 3, .ofFields [("x", .number (0 / 0))]]

/-- Every object of a circle may be taken for every other one. -/
theorem isBisimulation_circles : circles.IsBisimulation fun x y => x.index < 6 ∧ y.index < 6 := by
  have hlink : ∀ i < 6, ∃ next < 6, circles.objects[i]? = some (link next) := by
    intro i hi
    interval_cases i <;> exact ⟨_, by decide, rfl⟩
  rintro ⟨i⟩ ⟨j⟩ ⟨hi, hj⟩
  obtain ⟨next, hnext, hx⟩ := hlink i hi
  obtain ⟨next', hnext', hy⟩ := hlink j hj
  refine .inr ⟨_, _, hx, hy, Dict.matches_iff.2 ?_, .some (.inr ⟨hnext, hnext'⟩)⟩
  exact .cons ⟨rfl, .object ⟨hnext, hnext'⟩⟩ .nil

/-- The circle of three equals that of one, by way of the circle of two. The object with the
undefined number equals itself, and the number does not. -/
theorem equal_circles :
    circles.equal (.object ⟨3⟩) (.object ⟨0⟩) = true
    ∧ circles.equal (.object ⟨6⟩) (.object ⟨6⟩) = true
    ∧ circles.equal (.number (0 / 0)) (.number (0 / 0)) ≠ true := by
  obtain ⟨hself, hsymm, htrans, hobject⟩ := equal_equivalence circles
  have h : circles.equal (.object ⟨1⟩) (.object ⟨3⟩) = true :=
    equal_iff_equalUpTo.2 ⟨_, isBisimulation_circles, .object (by decide)⟩
  have h' : circles.equal (.object ⟨1⟩) (.object ⟨0⟩) = true :=
    equal_iff_equalUpTo.2 ⟨_, isBisimulation_circles, .object (by decide)⟩
  refine ⟨htrans _ _ _ (hsymm _ _ h) h', hobject ⟨6⟩, fun hnumber => ?_⟩
  have hdefined := (hself _).1 hnumber _ rfl
  exact absurd hdefined (by decide +kernel)

end Store

end ObjectLisp
