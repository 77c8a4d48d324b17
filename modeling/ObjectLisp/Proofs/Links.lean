import Mathlib.Logic.Relation

/-!
# Ways along links

From a frame at most one link leads on, to the frame around it, and from an object at most one, to
its prototype. Such links make chains: `chain x n` is the place that is `n` links away from `x`,
unless the links end before (`IsChain`).

`LeadsTo` says that a place is on a chain and that all places before it are passed. One link after
another, this is a walk from one passed place to the next (`IsChain.leadsTo_iff_reflTransGen`), so
it may be followed by induction, also where the links go round in a circle.
-/

namespace ObjectLisp

variable {α : Type} {next : α → Option α} {chain : α → Nat → Option α} {passed : α → Prop} {x y : α}

/-- The place is on the chain, and all places before it are passed. -/
def LeadsTo (chain : Nat → Option α) (passed : α → Prop) (y : α) : Prop :=
  ∃ n, chain n = some y ∧ ∀ m < n, ∀ z, chain m = some z → passed z

/-- A chain has one place that is not passed, at most, with all before it passed. -/
theorem LeadsTo.unique {chain : Nat → Option α} {y' : α} (h : LeadsTo chain passed y)
    (h' : LeadsTo chain passed y') (hy : ¬ passed y) (hy' : ¬ passed y') : y = y' := by
  obtain ⟨n, hn, hbefore⟩ := h
  obtain ⟨n', hn', hbefore'⟩ := h'
  rcases Nat.lt_trichotomy n n' with hlt | rfl | hlt
  · exact absurd (hbefore' n hlt y hn) hy
  · exact Option.some.inj (hn.symm.trans hn')
  · exact absurd (hbefore n' hlt y' hn') hy'

/-- The chains that follow the links `next`. -/
structure IsChain (next : α → Option α) (chain : α → Nat → Option α) : Prop where
  zero : ∀ x, chain x 0 = some x
  succ : ∀ x n, chain x (n + 1) = (next x).bind fun y => chain y n

namespace IsChain

theorem leadsTo_self (h : IsChain next chain) (x : α) : LeadsTo (chain x) passed x :=
  ⟨0, h.zero x, nofun⟩

/-- A passed place leads where the next one leads. -/
theorem leadsTo_of_next (h : IsChain next chain) {z : α} (hx : passed x) (hz : next x = some z)
    (hy : LeadsTo (chain z) passed y) : LeadsTo (chain x) passed y := by
  obtain ⟨n, hn, hbefore⟩ := hy
  have hsucc (m : Nat) : chain x (m + 1) = chain z m := by rw [h.succ, hz, Option.bind_some]
  refine ⟨n + 1, (hsucc n).trans hn, fun m hm w hw => ?_⟩
  cases m with
  | zero =>
    obtain rfl : x = w := Option.some.inj ((h.zero x).symm.trans hw)
    exact hx
  | succ m => exact hbefore m (Nat.lt_of_succ_lt_succ hm) w ((hsucc m).symm.trans hw)

/-- What a chain leads to is reached by steps from one passed place to the next. -/
theorem leadsTo_iff_reflTransGen (h : IsChain next chain) :
    LeadsTo (chain x) passed y
      ↔ Relation.ReflTransGen (fun a b => passed a ∧ next a = some b) x y := by
  constructor
  · rintro ⟨n, hn, hbefore⟩
    induction n generalizing x with
    | zero =>
      obtain rfl : x = y := Option.some.inj ((h.zero x).symm.trans hn)
      exact .refl
    | succ n ih =>
      have hx : passed x := hbefore 0 (Nat.succ_pos n) x (h.zero x)
      rw [h.succ] at hn
      obtain ⟨z, hz, hn⟩ := Option.bind_eq_some_iff.1 hn
      refine .head ⟨hx, hz⟩ (ih hn fun m hm w hw => ?_)
      exact hbefore (m + 1) (Nat.succ_lt_succ hm) w (by rw [h.succ, hz, Option.bind_some, hw])
  · intro hpath
    induction hpath using Relation.ReflTransGen.head_induction_on with
    | refl => exact h.leadsTo_self y
    | head hstep _ ih => exact h.leadsTo_of_next hstep.1 hstep.2 ih

/-- A chain leads to the place where it begins, and from a passed place to where the next one
leads. -/
theorem leadsTo_iff (h : IsChain next chain) :
    LeadsTo (chain x) passed y
      ↔ x = y ∨ passed x ∧ ∃ z, next x = some z ∧ LeadsTo (chain z) passed y := by
  simp only [h.leadsTo_iff_reflTransGen]
  rw [Relation.ReflTransGen.cases_head_iff]
  simp only [and_assoc, exists_and_left]

end IsChain

end ObjectLisp
