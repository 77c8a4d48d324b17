import Mathlib.Data.Nat.Find
import ObjectLisp.Proofs.Object.Inheritance

/-!
# Fields along the prototype chain

The prototype chain of an object is a sequence that begins with the object and goes on from each
object to its prototype (`Store.prototypeChain`). It ends, or it goes on for ever because it runs
into a circle at some point. A look-up answers by the chain alone: with the value that the nearest
owner holds, or, when nobody on the chain owns the field, with an error that says whether the chain
ends (`Store.lookup_along_chain`).

The rules of the search (`Store.Finds`) stand between the two. An induction on the number of
prototypes leads from the chain to the rules, and one on the rules leads back.
-/

namespace ObjectLisp.Store

variable {s : Store} {name : String} {x y : ObjectId} {r : Option Value}

/-! ## Chains -/

/-- The object that is `n` prototypes away, unless the chain ends before. -/
def prototypeChain (s : Store) (x : ObjectId) : Nat → Option ObjectId
  | 0 => some x
  | n + 1 => (s.prototypeChain x n).bind fun y => (s.object y).prototype

/-- The value that an object itself holds under a name. -/
def own (s : Store) (x : ObjectId) (name : String) : Option Value := (s.object x).fields.get? name

/-- No object on the chain owns the field. -/
def Unowned (s : Store) (name : String) (x : ObjectId) : Prop :=
  ∀ i y, s.prototypeChain x i = some y → s.own y name = none

/-- The object `i` prototypes away holds the value, and no object before it owns the field. -/
structure NearestHolds (s : Store) (name : String) (x : ObjectId) (i : Nat) (v : Value) :
    Prop where
  holds : ∃ y, s.prototypeChain x i = some y ∧ s.own y name = some v
  nearest : ∀ j < i, ∀ y, s.prototypeChain x j = some y → s.own y name = none

/-- A chain goes on as that of the prototype. -/
theorem prototypeChain_succ (x : ObjectId) (n : Nat) :
    s.prototypeChain x (n + 1) = (s.object x).prototype.bind fun y => s.prototypeChain y n := by
  induction n with
  | zero => cases h : (s.object x).prototype <;> simp [prototypeChain, h]
  | succ n ih =>
    rw [prototypeChain, ih, Option.bind_assoc]
    rfl

/-- The chain of an object goes on as that of its prototype. -/
theorem prototypeChain_succ_of_prototype (h : (s.object x).prototype = some y) (n : Nat) :
    s.prototypeChain x (n + 1) = s.prototypeChain y n := by
  rw [prototypeChain_succ, h, Option.bind_some]

/-- A field that some object on the chain owns has a nearest owner. -/
theorem exists_nearestHolds (h : ¬ s.Unowned name x) : ∃ i v, s.NearestHolds name x i v := by
  classical
  have hsome : ∃ i, ∃ y v, s.prototypeChain x i = some y ∧ s.own y name = some v := by
    simp only [Unowned, not_forall] at h
    obtain ⟨i, y, hy, howned⟩ := h
    obtain ⟨v, hv⟩ := Option.ne_none_iff_exists'.1 howned
    exact ⟨i, y, v, hy, hv⟩
  obtain ⟨y, v, hy, hv⟩ := Nat.find_spec hsome
  refine ⟨Nat.find hsome, v, ⟨y, hy, hv⟩, fun j hj z hz => ?_⟩
  cases hw : s.own z name with
  | none => rfl
  | some w => exact absurd ⟨z, w, hz, hw⟩ (Nat.find_min hsome hj)

/-! ## From the chain to the rules -/

/-- A search is passed on by an object that lacks the field and has a prototype. -/
theorem passesOn_iff :
    s.PassesOn name x y ↔ s.own x name = none ∧ (s.object x).prototype = some y := by
  unfold PassesOn own object
  rw [Array.getD_eq_getD_getElem?]
  cases s.objects[x.index]? with
  | none => exact ⟨by simp, fun h => nomatch h.2⟩
  | some o => simp

/-- It is settled by one that has the field, or has neither that nor a prototype. -/
theorem settles_iff :
    s.Settles name x r ↔ s.own x name = r ∧ (r = none → (s.object x).prototype = none) := by
  unfold Settles own object
  rw [Array.getD_eq_getD_getElem?]
  cases s.objects[x.index]? with
  | none => exact ⟨fun h => ⟨h.symm, fun _ => rfl⟩, fun h => h.1.symm⟩
  | some o => exact Iff.rfl

/-- The search finds what the nearest owner holds. -/
theorem NearestHolds.finds {i : Nat} {v : Value} (h : s.NearestHolds name x i v) :
    s.Finds name x (some v) := by
  induction i generalizing x with
  | zero =>
    obtain ⟨y, ⟨⟩, hv⟩ := h.holds
    exact .settled (settles_iff.2 ⟨hv, nofun⟩)
  | succ i ih =>
    obtain ⟨z, hz, hv⟩ := h.holds
    have hown : s.own x name = none := h.nearest 0 (Nat.succ_pos i) x rfl
    rw [prototypeChain_succ] at hz
    obtain ⟨y, hprototype, hyz⟩ := Option.bind_eq_some_iff.1 hz
    refine .inherited (passesOn_iff.2 ⟨hown, hprototype⟩) (ih ⟨⟨z, hyz, hv⟩, ?_⟩)
    intro j hj w hw
    rw [← prototypeChain_succ_of_prototype hprototype] at hw
    exact h.nearest (j + 1) (Nat.succ_lt_succ hj) w hw

/-- The search ends without a value on a chain that ends and on which nobody owns the field. -/
theorem Unowned.finds (h : s.Unowned name x) {i : Nat} (hend : s.prototypeChain x i = none) :
    s.Finds name x none := by
  induction i generalizing x with
  | zero => nomatch hend
  | succ i ih =>
    have hown : s.own x name = none := h 0 x rfl
    cases hprototype : (s.object x).prototype with
    | none => exact .settled (settles_iff.2 ⟨hown, fun _ => hprototype⟩)
    | some y =>
      have hnext := prototypeChain_succ_of_prototype hprototype
      refine .inherited (passesOn_iff.2 ⟨hown, hprototype⟩) (ih (fun j z hz => ?_) ?_)
      · exact h (j + 1) z ((hnext j).trans hz)
      · exact (hnext i).symm.trans hend

/-! ## From the rules to the chain -/

/-- Where the rules lead, the chain leads: to the nearest owner, or to the end past objects that do
not own the field. -/
theorem Finds.along_chain (h : s.Finds name x r) :
    match r with
    | some v => ∃ i, s.NearestHolds name x i v
    | none => s.Unowned name x ∧ ∃ i, s.prototypeChain x i = none := by
  induction h with
  | @settled x r h =>
    obtain ⟨hown, hlast⟩ := settles_iff.1 h
    cases r with
    | some v => exact ⟨0, ⟨x, rfl, hown⟩, nofun⟩
    | none =>
      -- The chain is over after the object that settled the search.
      have hend : ∀ i, s.prototypeChain x (i + 1) = none := by
        intro i
        rw [prototypeChain_succ, hlast rfl, Option.bind_none]
      refine ⟨fun i y hy => ?_, 1, hend 0⟩
      cases i with
      | zero =>
        cases hy
        exact hown
      | succ i => nomatch (hend i).symm.trans hy
  | @inherited x y r h _ ih =>
    obtain ⟨hown, hprototype⟩ := passesOn_iff.1 h
    -- The chain from here is that from the prototype, one place further on.
    have hnext := prototypeChain_succ_of_prototype hprototype
    cases r with
    | some v =>
      obtain ⟨i, ⟨z, hz, hv⟩, hnearest⟩ := ih
      refine ⟨i + 1, ⟨z, (hnext i).trans hz, hv⟩, fun j hj w hw => ?_⟩
      cases j with
      | zero =>
        cases hw
        exact hown
      | succ j => exact hnearest j (Nat.lt_of_succ_lt_succ hj) w ((hnext j).symm.trans hw)
    | none =>
      obtain ⟨hunowned, i, hend⟩ := ih
      refine ⟨fun j w hw => ?_, i + 1, (hnext i).trans hend⟩
      cases j with
      | zero =>
        cases hw
        exact hown
      | succ j => exact hunowned j w ((hnext j).symm.trans hw)

/-- A search finds the value of the nearest object with the field. -/
theorem finds_some_iff {v : Value} :
    s.Finds name x (some v) ↔ ∃ i, s.NearestHolds name x i v :=
  ⟨fun h => h.along_chain, fun ⟨_, h⟩ => h.finds⟩

/-- It finds nothing if the chain ends and no object on it has the field. -/
theorem finds_none_iff :
    s.Finds name x none ↔ s.Unowned name x ∧ ∃ i, s.prototypeChain x i = none :=
  ⟨fun h => h.along_chain, fun ⟨h, _, hend⟩ => h.finds hend⟩

/-- The rules lead nowhere exactly on a chain that never ends and on which nobody owns the field. -/
theorem not_finds_iff :
    (∀ r, ¬ s.Finds name x r) ↔ s.Unowned name x ∧ ∀ i, s.prototypeChain x i ≠ none := by
  constructor
  · intro h
    have hunowned : s.Unowned name x := by
      by_contra howned
      obtain ⟨i, v, hv⟩ := exists_nearestHolds howned
      exact h _ hv.finds
    exact ⟨hunowned, fun i hend => h none (hunowned.finds hend)⟩
  · rintro ⟨hunowned, hendless⟩ r h
    cases r with
    | some v =>
      obtain ⟨i, ⟨y, hy, hv⟩, -⟩ := finds_some_iff.1 h
      nomatch hv.symm.trans (hunowned i y hy)
    | none =>
      obtain ⟨-, i, hend⟩ := finds_none_iff.1 h
      exact hendless i hend

/-! ## The look-up -/

/-- A look-up has one of three answers, by where the rules lead. -/
theorem lookup_cases (s : Store) (x : ObjectId) (name : String) :
    (∃ v, s.Finds name x (some v) ∧ s.lookup x name = .ok v)
    ∨ (s.Finds name x none
      ∧ s.lookup x name = .error (.fieldNotFound name (s.text (.object x))))
    ∨ ((∀ r, ¬ s.Finds name x r) ∧ s.lookup x name = .error (.prototypeCycle name)) := by
  by_cases h : ∃ r, s.Finds name x r
  · obtain ⟨_ | v, h⟩ := h
    · exact .inr (.inl ⟨h, h.lookup_eq_fieldNotFound⟩)
    · exact .inl ⟨v, h, h.lookup_eq_ok⟩
  · exact .inr (.inr ⟨not_exists.1 h, lookup_eq_prototypeCycle (not_exists.1 h)⟩)

/-- A look-up gives the value of the nearest owner on the prototype chain. Without an owner it
reports a circle exactly when the chain never ends, and a missing field of the object at which it
began exactly when the chain ends. -/
theorem lookup_along_chain (s : Store) (x : ObjectId) (name : String) :
    (∀ v, s.lookup x name = .ok v ↔ ∃ i, s.NearestHolds name x i v)
    ∧ (∀ key, s.lookup x name = .error (.prototypeCycle key)
      ↔ key = name ∧ s.Unowned name x ∧ ∀ i, s.prototypeChain x i ≠ none)
    ∧ (∀ key text, s.lookup x name = .error (.fieldNotFound key text)
      ↔ key = name ∧ text = s.text (.object x) ∧ s.Unowned name x
        ∧ ∃ i, s.prototypeChain x i = none) := by
  simp only [← finds_some_iff, ← not_finds_iff, ← finds_none_iff]
  -- The three outcomes exclude each other, so each of them shows that the other two did not come.
  rcases lookup_cases s x name with ⟨v, h, hlookup⟩ | ⟨h, hlookup⟩ | ⟨h, hlookup⟩
  all_goals rw [hlookup]
  · refine ⟨fun w => ⟨?_, fun hw => ?_⟩, fun key => ⟨nofun, fun hkey => absurd h (hkey.2 _)⟩,
      fun key text => ⟨nofun, fun hkey => nomatch h.unique hkey.2.2⟩⟩
    · rintro ⟨⟩
      exact h
    · cases h.unique hw
      rfl
  · refine ⟨fun w => ⟨nofun, fun hw => nomatch h.unique hw⟩,
      fun key => ⟨nofun, fun hkey => absurd h (hkey.2 _)⟩, fun key text => ⟨?_, ?_⟩⟩
    · rintro ⟨⟩
      exact ⟨rfl, rfl, h⟩
    · rintro ⟨rfl, rfl, -⟩
      rfl
  · refine ⟨fun w => ⟨nofun, fun hw => absurd hw (h _)⟩, fun key => ⟨?_, ?_⟩,
      fun key text => ⟨nofun, fun hkey => absurd hkey.2.2 (h _)⟩⟩
    · rintro ⟨⟩
      exact ⟨rfl, h⟩
    · rintro ⟨rfl, -⟩
      rfl

end ObjectLisp.Store
