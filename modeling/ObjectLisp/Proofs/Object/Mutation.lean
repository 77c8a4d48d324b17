import ObjectLisp.Proofs.Dict
import ObjectLisp.Proofs.Links
import ObjectLisp.Proofs.Object.Chain

/-!
# What a change of an object changes

A change of one object is seen through every object that inherits from it, and through no other. For
a look-up that means: a new field is found exactly by the look-ups for it that come to the object,
and a new prototype is asked exactly by those that come to the object and go on from there. All
other look-ups answer as before (`Store.mutation_is_local`).

Whether a look-up comes to an object is read off the chain as it was before the change
(`Store.ComesTo`). The chain may run in a circle, also through the changed object, and the change
may open or close a circle. The way up to the first visit is the same before and after, and this is
all that counts.
-/

namespace ObjectLisp

/-- The same value, or two errors of the same kind about the same field. -/
inductive SameAnswer : Except RuntimeError Value → Except RuntimeError Value → Prop
  | ok (v : Value) : SameAnswer (.ok v) (.ok v)
  | fieldNotFound (key text text' : String) :
    SameAnswer (.error (.fieldNotFound key text)) (.error (.fieldNotFound key text'))
  | prototypeCycle (key : String) :
    SameAnswer (.error (.prototypeCycle key)) (.error (.prototypeCycle key))

/-- Two objects send a search for the field the same way: both hold the same value, or neither owns
the field and both have the same prototype. -/
def Object.SendsAlike (key : String) (a b : Object) : Prop :=
  a.fields.get? key = b.fields.get? key ∧ (a.fields.get? key = none → a.prototype = b.prototype)

namespace Store

variable {s t : Store} {key : String} {x y o : ObjectId} {a : Object} {r : Option Value}

/-! ## Searches in two stores -/

/-- Objects that send a look-up alike settle it alike. -/
theorem settles_iff_of_sendsAlike (h : (s.object x).SendsAlike key (t.object x)) :
    s.Settles key x r ↔ t.Settles key x r := by
  obtain ⟨hown, hprototype⟩ := h
  rw [settles_iff, settles_iff, own, own, ← hown]
  refine and_congr_right fun hr => forall_congr' fun hnone => ?_
  rw [hprototype (hr.trans hnone)]

/-- They pass it on to the same object, too. -/
theorem passesOn_iff_of_sendsAlike (h : (s.object x).SendsAlike key (t.object x)) :
    s.PassesOn key x y ↔ t.PassesOn key x y := by
  obtain ⟨hown, hprototype⟩ := h
  rw [passesOn_iff, passesOn_iff, own, own, ← hown]
  refine and_congr_right fun hnone => ?_
  rw [hprototype hnone]

/-- Searches in two stores end alike if all objects that are asked send them the same way. -/
theorem finds_iff_of_sendsAlike
    (h : ∀ y, Relation.ReflTransGen (s.PassesOn key) x y →
      (s.object y).SendsAlike key (t.object y)) :
    s.Finds key x r ↔ t.Finds key x r := by
  constructor
  · intro hfinds
    induction hfinds with
    | settled hsettles => exact .settled ((settles_iff_of_sendsAlike (h _ .refl)).1 hsettles)
    | inherited hpass _ ih =>
      refine .inherited ((passesOn_iff_of_sendsAlike (h _ .refl)).1 hpass) (ih fun y hy => ?_)
      exact h y (.head hpass hy)
  · intro hfinds
    induction hfinds with
    | settled hsettles => exact .settled ((settles_iff_of_sendsAlike (h _ .refl)).2 hsettles)
    | inherited hpass _ ih =>
      have hpass' := (passesOn_iff_of_sendsAlike (h _ .refl)).2 hpass
      exact .inherited hpass' (ih fun y hy => h y (.head hpass' hy))

/-- A search ends where it ends from any object that it comes to. -/
theorem finds_iff_of_reflTransGen (h : Relation.ReflTransGen (s.PassesOn key) x y) :
    s.Finds key x r ↔ s.Finds key y r := by
  refine ⟨fun hfinds => hfinds.of_reflTransGen h, fun hfinds => ?_⟩
  induction h using Relation.ReflTransGen.head_induction_on with
  | refl => exact hfinds
  | head hpass _ ih => exact .inherited hpass ih

/-- Look-ups of which the searches end alike have the same answer. -/
theorem sameAnswer_of_finds_iff (h : ∀ r, s.Finds key x r ↔ t.Finds key y r) :
    SameAnswer (s.lookup x key) (t.lookup y key) := by
  rcases lookup_cases s x key with ⟨v, hv, heq⟩ | ⟨hnone, heq⟩ | ⟨hcycle, heq⟩
  · rw [heq, ((h _).1 hv).lookup_eq_ok]
    exact .ok v
  · rw [heq, ((h _).1 hnone).lookup_eq_fieldNotFound]
    exact .fieldNotFound ..
  · rw [heq, lookup_eq_prototypeCycle fun r hr => hcycle r ((h r).2 hr)]
    exact .prototypeCycle key

/-! ## Coming to an object -/

/-- The object is on the chain, and no object before it owns the field. -/
def ComesTo (s : Store) (key : String) (x o : ObjectId) : Prop :=
  LeadsTo (s.prototypeChain x) (fun z => s.own z key = none) o

/-- An object on the chain, up to the first visit of the given one, owns the field. -/
def OwnedUpTo (s : Store) (key : String) (x o : ObjectId) : Prop :=
  ∃ n, s.prototypeChain x n = some o ∧ (∀ m < n, s.prototypeChain x m ≠ some o)
    ∧ ∃ i ≤ n, ∃ y, s.prototypeChain x i = some y ∧ s.own y key ≠ none

/-- The prototype chain follows the prototypes. -/
theorem isChain_prototypeChain : IsChain (fun x => (s.object x).prototype) s.prototypeChain :=
  ⟨fun _ => rfl, prototypeChain_succ⟩

/-- A look-up comes to an object along the objects that pass it on. -/
theorem comesTo_iff : s.ComesTo key x o ↔ Relation.ReflTransGen (s.PassesOn key) x o := by
  rw [ComesTo, isChain_prototypeChain.leadsTo_iff_reflTransGen]
  simp only [← passesOn_iff]

/-- A search goes past an object exactly when it is on the chain, and neither it nor an object
before it owns the field. -/
theorem not_offChain_or_ownedUpTo_iff :
    ¬ ((∀ i, s.prototypeChain x i ≠ some o) ∨ s.OwnedUpTo key x o)
      ↔ s.ComesTo key x o ∧ s.own o key = none := by
  classical
  constructor
  · intro h
    obtain ⟨hon, hunowned⟩ := not_or.1 h
    have hsome : ∃ n, s.prototypeChain x n = some o := by simpa using hon
    have hnone : ∀ i ≤ Nat.find hsome, ∀ y, s.prototypeChain x i = some y → s.own y key = none := by
      intro i hi y hy
      by_contra howned
      exact hunowned ⟨_, Nat.find_spec hsome, fun m hm => Nat.find_min hsome hm, i, hi, y, hy,
        howned⟩
    exact ⟨⟨_, Nat.find_spec hsome, fun m hm => hnone m (Nat.le_of_lt hm)⟩,
      hnone _ (Nat.le_refl _) o (Nat.find_spec hsome)⟩
  · rintro ⟨⟨n, hn, hbefore⟩, hown⟩ (hoff | ⟨m, -, hfirst, i, hi, y, hy, howned⟩)
    · exact hoff n hn
    · -- The first visit is not after the one that the search comes to.
      have hmn : m ≤ n := Nat.le_of_not_lt fun hlt => hfirst n hlt hn
      rcases Nat.lt_or_eq_of_le (Nat.le_trans hi hmn) with hlt | rfl
      · exact howned (hbefore i hlt y hy)
      · obtain rfl : o = y := Option.some.inj (hn.symm.trans hy)
        exact howned hown

/-! ## One object replaced -/

/-- After a change, the object is what it has been changed to. -/
theorem object_setObject_self (ho : o.index < s.objects.size) :
    (s.setObject o a).object o = a := by
  simp [setObject, object, ho]

/-- Every other object is what it was. -/
theorem object_setObject_of_ne (h : x ≠ o) : (s.setObject o a).object x = s.object x := by
  have hindex : o.index ≠ x.index := fun heq => h (congrArg ObjectId.mk heq.symm)
  simp [setObject, object, Array.getElem?_setIfInBounds_ne hindex]

/-- A search that comes to the replaced object comes to it as before. -/
theorem reflTransGen_setObject (h : Relation.ReflTransGen (s.PassesOn key) x o) :
    Relation.ReflTransGen ((s.setObject o a).PassesOn key) x o := by
  induction h using Relation.ReflTransGen.head_induction_on with
  | refl => exact .refl
  | @head x y hpass _ ih =>
    -- On its way the search may have been there already.
    by_cases hx : x = o
    · rw [hx]
    · refine .head (passesOn_iff.2 ?_) ih
      rw [own, object_setObject_of_ne hx]
      exact passesOn_iff.1 hpass

/-- A search is the same as before if it does not come to the replaced object, or the new one sends
it the same way as the old one. -/
theorem finds_setObject_iff (ho : o.index < s.objects.size)
    (h : Relation.ReflTransGen (s.PassesOn key) x o → (s.object o).SendsAlike key a) :
    s.Finds key x r ↔ (s.setObject o a).Finds key x r := by
  refine finds_iff_of_sendsAlike fun y hy => ?_
  by_cases heq : y = o
  · subst heq
    rw [object_setObject_self ho]
    exact h hy
  · rw [object_setObject_of_ne heq]
    exact ⟨rfl, fun _ => rfl⟩

/-! ## A new field -/

variable {name : String} {v : Value}

/-- A look-up that comes to the object finds the field inserted there. -/
theorem lookup_insertField_of_comesTo (ho : o.index < s.objects.size) (h : s.ComesTo name x o) :
    (s.insertField o name v).lookup x name = .ok v := by
  have hcomes := reflTransGen_setObject (a := (s.object o).insert name v) (comesTo_iff.1 h)
  have hfinds : (s.insertField o name v).Finds name o (some v) := by
    refine .settled (settles_iff.2 ⟨?_, nofun⟩)
    rw [own, insertField, object_setObject_self ho, Object.insert, Dict.get?_insert, if_pos rfl]
  exact ((finds_iff_of_reflTransGen hcomes).2 hfinds).lookup_eq_ok

/-- Any other look-up has the answer it had. -/
theorem sameAnswer_insertField (ho : o.index < s.objects.size)
    (h : ¬ (key = name ∧ s.ComesTo key x o)) :
    SameAnswer (s.lookup x key) ((s.insertField o name v).lookup x key) := by
  refine sameAnswer_of_finds_iff fun r => finds_setObject_iff ho fun hcomes => ?_
  have hkey : key ≠ name := fun hkey => h ⟨hkey, comesTo_iff.2 hcomes⟩
  refine ⟨?_, fun _ => rfl⟩
  rw [Object.insert, Dict.get?_insert, if_neg hkey]

/-! ## A new prototype -/

variable {next : Option ObjectId} {p : Value} {e : RuntimeError}

/-- A prototype is replaced by an object or by none. -/
theorem exists_of_setPrototype_ok (h : s.setPrototype o p = (.ok (), t)) :
    ∃ next, (p = .null ∧ next = none ∨ ∃ q, p = .object q ∧ next = some q)
      ∧ t = s.setObject o { s.object o with prototype := next } := by
  cases p with
  | null => exact ⟨none, .inl ⟨rfl, rfl⟩, (Prod.mk.inj h).2.symm⟩
  | object q => exact ⟨some q, .inr ⟨q, rfl, rfl⟩, (Prod.mk.inj h).2.symm⟩
  | _ => nomatch (Prod.mk.inj h).1

/-- A search that does not go past the object does not see its new prototype. -/
theorem sameAnswer_of_prototype (ho : o.index < s.objects.size)
    (h : ¬ (s.ComesTo key x o ∧ s.own o key = none))
    (ht : t = s.setObject o { s.object o with prototype := next }) :
    SameAnswer (s.lookup x key) (t.lookup x key) := by
  subst ht
  refine sameAnswer_of_finds_iff fun r => finds_setObject_iff ho fun hcomes => ?_
  exact ⟨rfl, fun hnone => absurd ⟨comesTo_iff.2 hcomes, hnone⟩ h⟩

/-- A search that goes past the object comes to it as before, and is then sent to the new
prototype. -/
theorem comesTo_of_prototype (ho : o.index < s.objects.size) (h : s.ComesTo key x o)
    (hown : s.own o key = none) (ht : t = s.setObject o { s.object o with prototype := next }) :
    Relation.ReflTransGen (t.PassesOn key) x o ∧ t.own o key = none
      ∧ (t.object o).prototype = next := by
  subst ht
  refine ⟨reflTransGen_setObject (comesTo_iff.1 h), ?_⟩
  rw [own, object_setObject_self ho]
  exact ⟨hown, rfl⟩

/-- A look-up that went past an object finds nothing once its prototype is gone. -/
theorem lookup_of_no_prototype (ho : o.index < s.objects.size) (h : s.ComesTo key x o)
    (hown : s.own o key = none) (ht : t = s.setObject o { s.object o with prototype := none }) :
    t.lookup x key = .error (.fieldNotFound key (t.text (.object x))) := by
  obtain ⟨hcomes, hown, hlast⟩ := comesTo_of_prototype ho h hown ht
  have hfinds : t.Finds key o none := .settled (settles_iff.2 ⟨hown, fun _ => hlast⟩)
  exact ((finds_iff_of_reflTransGen hcomes).2 hfinds).lookup_eq_fieldNotFound

/-- With another prototype it goes on as if it had begun there. -/
theorem sameAnswer_of_new_prototype (ho : o.index < s.objects.size) (h : s.ComesTo key x o)
    (hown : s.own o key = none) {q : ObjectId}
    (ht : t = s.setObject o { s.object o with prototype := some q }) :
    SameAnswer (t.lookup q key) (t.lookup x key) := by
  obtain ⟨hcomes, hown, hnext⟩ := comesTo_of_prototype ho h hown ht
  refine sameAnswer_of_finds_iff fun r => (finds_iff_of_reflTransGen ?_).symm
  exact hcomes.tail (passesOn_iff.2 ⟨hown, hnext⟩)

/-! ## Changes that fail -/

/-- A field that cannot be set leaves the store as it was. -/
theorem eq_of_setField_error {k : Value} (h : s.setField o k v = (.error e, t)) : t = s := by
  unfold setField at h
  split at h
  · exact (Prod.mk.inj h).2.symm
  · nomatch (Prod.mk.inj h).1

/-- So does a prototype that cannot be set. -/
theorem eq_of_setPrototype_error (h : s.setPrototype o p = (.error e, t)) : t = s := by
  cases p with
  | null | object => nomatch (Prod.mk.inj h).1
  | _ => exact (Prod.mk.inj h).2.symm

/-! ## Locality -/

/-- A change of an object is seen by the look-ups that come to it, and by no others.

After a new field, a look-up for it gives the new value if the object is on its chain and no earlier
object there owns the field. After a new prototype, a look-up for a field that neither the object
nor one before it owns answers as a look-up in the new prototype, or that the field is not found if
there is none. Every other look-up answers as before. A change that fails changes nothing. -/
theorem mutation_is_local {s : Store} {o : ObjectId} (ho : o.index < s.objects.size) :
    (∀ name v x key,
      (key = name ∧ s.ComesTo key x o → (s.insertField o name v).lookup x key = .ok v)
      ∧ (¬ (key = name ∧ s.ComesTo key x o) →
        SameAnswer (s.lookup x key) ((s.insertField o name v).lookup x key)))
    ∧ (∀ name v, s.setField o (.keyword name) v = (.ok (), s.insertField o name v))
    ∧ (∀ p t, s.setPrototype o p = (.ok (), t) → ∀ x key,
      ((∀ i, s.prototypeChain x i ≠ some o) ∨ s.OwnedUpTo key x o →
        SameAnswer (s.lookup x key) (t.lookup x key))
      ∧ (¬ ((∀ i, s.prototypeChain x i ≠ some o) ∨ s.OwnedUpTo key x o) →
        p = .null ∧ t.lookup x key = .error (.fieldNotFound key (t.text (.object x)))
        ∨ ∃ q, p = .object q ∧ SameAnswer (t.lookup q key) (t.lookup x key)))
    ∧ (∀ k v e t, s.setField o k v = (.error e, t) → t = s)
    ∧ ∀ p e t, s.setPrototype o p = (.error e, t) → t = s := by
  refine ⟨fun name v x key => ⟨?_, sameAnswer_insertField ho⟩, fun name v => rfl,
    fun p t h x key => ?_, fun k v e t => eq_of_setField_error,
    fun p e t => eq_of_setPrototype_error⟩
  · -- A field is seen by the look-ups that come to the object, and by no other.
    rintro ⟨rfl, hcomes⟩
    exact lookup_insertField_of_comesTo ho hcomes
  · -- A prototype is seen by the look-ups that come to the object and find nothing there.
    obtain ⟨next, hp, ht⟩ := exists_of_setPrototype_ok h
    constructor
    · intro hkept
      exact sameAnswer_of_prototype ho (fun hpast => not_offChain_or_ownedUpTo_iff.2 hpast hkept) ht
    · intro hseen
      obtain ⟨hcomes, hown⟩ := not_offChain_or_ownedUpTo_iff.1 hseen
      rcases hp with ⟨hnull, rfl⟩ | ⟨q, hq, rfl⟩
      · exact .inl ⟨hnull, lookup_of_no_prototype ho hcomes hown ht⟩
      · exact .inr ⟨q, hq, sameAnswer_of_new_prototype ho hcomes hown ht⟩

/-- Two objects without fields, each the prototype of the other. -/
def twoCircle : Store := ⟨#[], #[], #[⟨∅, some ⟨1⟩⟩, ⟨∅, some ⟨0⟩⟩]⟩

/-- A field that is new on a circle is found, and a circle that is broken has an end. -/
theorem mutation_is_local_twoCircle :
    (twoCircle.insertField ⟨0⟩ "k" (.bool true)).lookup ⟨1⟩ "k" = .ok (.bool true)
    ∧ ∃ t, twoCircle.setPrototype ⟨0⟩ .null = (.ok (), t)
      ∧ t.lookup ⟨1⟩ "k" = .error (.fieldNotFound "k" (t.text (.object ⟨1⟩))) := by
  have hsize : (⟨0⟩ : ObjectId).index < twoCircle.objects.size := by decide
  have hcomes : twoCircle.ComesTo "k" ⟨1⟩ ⟨0⟩ := by
    refine ⟨1, rfl, fun m hm z hz => ?_⟩
    obtain rfl : m = 0 := Nat.lt_one_iff.1 hm
    cases hz
    rfl
  obtain ⟨hinsert, -, hprototype, -⟩ := mutation_is_local hsize
  refine ⟨(hinsert "k" (.bool true) ⟨1⟩ "k").1 ⟨rfl, hcomes⟩, _, rfl, ?_⟩
  have hpast := (hprototype .null _ rfl ⟨1⟩ "k").2 (not_offChain_or_ownedUpTo_iff.2 ⟨hcomes, rfl⟩)
  exact hpast.elim And.right nofun

end Store

end ObjectLisp
