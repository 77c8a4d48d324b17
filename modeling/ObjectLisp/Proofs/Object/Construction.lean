import Mathlib.Data.List.Induction
import Mathlib.Data.Nat.Find
import ObjectLisp.Proofs.Dict
import ObjectLisp.Proofs.Eval.Trace

/-!
# Objects made of pairs

The arguments of a constructor are keys and values in turn. The places of the list decide what is
made of it: the value at an odd place belongs to the key at the place before (`PairAt`), a faulty
list is refused with the fault of its first faulty pair (`FirstFault`), and a name has the value of
the last pair with that key (`HeldLast`).

Both constructors are described in this way (`Object.construction_by_places`). That of an object
literal looks at the values too, and at all pairs before it builds anything, so it refuses a value
that a later pair would have replaced.
-/

namespace ObjectLisp

/-- The values that an object literal may hold. -/
inductive Value.IsLiteral : Value → Prop
  | number (x : Float) : IsLiteral (.number x)
  | bool (b : Bool) : IsLiteral (.bool b)
  | primitive (p : Primitive) : IsLiteral (.primitive p)
  | closure (id : ClosureId) : IsLiteral (.closure id)
  | keyword (name : String) : IsLiteral (.keyword name)

/-- The check of a field value finds the literals. -/
theorem Value.isFieldLiteral_iff {v : Value} : v.isFieldLiteral = true ↔ v.IsLiteral := by
  constructor
  · intro h
    cases v with
    | null | object _ => nomatch h
    | number x => exact .number x
    | bool b => exact .bool b
    | primitive p => exact .primitive p
    | closure id => exact .closure id
    | keyword name => exact .keyword name
  · rintro ⟨⟩ <;> rfl

namespace Object

variable {text : Value → String} {args rest : List Value} {key v : Value} {name : String}
  {e : RuntimeError} {o o' : Object}

/-! ## Pairs -/

/-- The key at the even place `2 * i`, and the value after it. -/
def PairAt (args : List Value) (i : Nat) (key v : Value) : Prop :=
  args[2 * i]? = some key ∧ args[2 * i + 1]? = some v

/-- No pair stands in an empty list. -/
theorem not_pairAt_nil {i : Nat} : ¬ PairAt [] i key v := nofun

/-- A single argument makes no pair. -/
theorem not_pairAt_singleton {x : Value} {i : Nat} : ¬ PairAt [x] i key v := by
  rintro ⟨-, h⟩
  rw [List.getElem?_cons_succ] at h
  nomatch h

/-- The pair at index 0 is the first one. -/
theorem pairAt_cons_zero {key' v' : Value} :
    PairAt (key' :: v' :: rest) 0 key v ↔ key' = key ∧ v' = v := by
  simp [PairAt]

/-- Any other pair stands one index earlier in the rest. -/
theorem pairAt_cons_succ {key' v' : Value} {i : Nat} :
    PairAt (key' :: v' :: rest) (i + 1) key v ↔ PairAt rest i key v := by
  simp [PairAt, Nat.mul_add]

/-- In a list of even length every key has a value. -/
theorem exists_pairAt_of_key (heven : args.length % 2 = 0) {i : Nat}
    (h : args[2 * i]? = some key) : ∃ v, PairAt args i key v := by
  have hlt : 2 * i < args.length := (List.getElem?_eq_some_iff.1 h).1
  have hlt' : 2 * i + 1 < args.length := by omega
  exact ⟨args[2 * i + 1], h, List.getElem?_eq_getElem hlt'⟩

/-- Every value has a key before it. -/
theorem exists_pairAt_of_value {i : Nat} (h : args[2 * i + 1]? = some v) :
    ∃ key, PairAt args i key v := by
  have hlt : 2 * i + 1 < args.length := (List.getElem?_eq_some_iff.1 h).1
  have hlt' : 2 * i < args.length := by omega
  exact ⟨args[2 * i], List.getElem?_eq_getElem hlt', h⟩

/-! ## Faults -/

/-- A key has to be a keyword. -/
inductive KeyFault (text : Value → String) : Value → Value → RuntimeError → Prop
  | key {key v : Value} (h : ∀ name, key ≠ .keyword name) :
    KeyFault text key v (.keyType (text key))

/-- In an object literal the value has to be a literal too, under a key that is a keyword. -/
inductive LiteralFault (text : Value → String) : Value → Value → RuntimeError → Prop
  | key {key v : Value} {e : RuntimeError} (h : KeyFault text key v e) : LiteralFault text key v e
  | value {name : String} {v : Value} (h : ¬ v.IsLiteral) :
    LiteralFault text (.keyword name) v (.disallowedField name (text v))

/-- The error is the fault of some pair, and no pair before it has a fault. -/
def FirstFault (fault : Value → Value → RuntimeError → Prop) (args : List Value)
    (e : RuntimeError) : Prop :=
  ∃ i key v, PairAt args i key v ∧ fault key v e
    ∧ ∀ j < i, ∀ key' v' e', PairAt args j key' v' → ¬ fault key' v' e'

section FirstFault

variable {fault : Value → Value → RuntimeError → Prop}

/-- An empty list has no fault. -/
theorem not_firstFault_nil : ¬ FirstFault fault [] e := by
  rintro ⟨i, key, v, hpair, -⟩
  exact not_pairAt_nil hpair

/-- Nor has a single argument. -/
theorem not_firstFault_singleton {x : Value} : ¬ FirstFault fault [x] e := by
  rintro ⟨i, key, v, hpair, -⟩
  exact not_pairAt_singleton hpair

/-- The first fault is that of the first pair, or the first of the others. -/
theorem firstFault_cons :
    FirstFault fault (key :: v :: rest) e
      ↔ fault key v e ∨ (∀ e', ¬ fault key v e') ∧ FirstFault fault rest e := by
  constructor
  · rintro ⟨i, key', v', hpair, hfault, hbefore⟩
    -- The fault is that of the first pair, or the first pair is sound and it comes later.
    cases i with
    | zero =>
      obtain ⟨rfl, rfl⟩ := pairAt_cons_zero.1 hpair
      exact .inl hfault
    | succ i =>
      have hfirst : ∀ e', ¬ fault key v e' := fun e' =>
        hbefore 0 (Nat.succ_pos i) key v e' (pairAt_cons_zero.2 ⟨rfl, rfl⟩)
      refine .inr ⟨hfirst, i, key', v', pairAt_cons_succ.1 hpair, hfault, ?_⟩
      intro j hj a b e' hab
      exact hbefore (j + 1) (Nat.succ_lt_succ hj) a b e' (pairAt_cons_succ.2 hab)
  · rintro (hfault | ⟨hfirst, i, key', v', hpair, hfault, hbefore⟩)
    · exact ⟨0, key, v, pairAt_cons_zero.2 ⟨rfl, rfl⟩, hfault, nofun⟩
    · -- What is before it in the whole list is the first pair or before it in the rest.
      refine ⟨i + 1, key', v', pairAt_cons_succ.2 hpair, hfault, ?_⟩
      intro j hj a b e' hab
      cases j with
      | zero =>
        obtain ⟨rfl, rfl⟩ := pairAt_cons_zero.1 hab
        exact hfirst e'
      | succ j => exact hbefore j (Nat.lt_of_succ_lt_succ hj) a b e' (pairAt_cons_succ.1 hab)

/-- If the first pair has no fault, the first fault is that of the rest. -/
theorem firstFault_cons_of_sound (h : ∀ e', ¬ fault key v e') :
    FirstFault fault (key :: v :: rest) e ↔ FirstFault fault rest e := by
  simp [firstFault_cons, h]

/-- If the first pair has a fault, that is the first one. -/
theorem firstFault_cons_of_fault {e₀ : RuntimeError} (h : ∀ e', fault key v e' ↔ e' = e₀) :
    FirstFault fault (key :: v :: rest) e ↔ e = e₀ := by
  simp [firstFault_cons, h]

/-- A list has no first fault exactly when all its pairs are sound. -/
theorem forall_not_firstFault_iff :
    (∀ e, ¬ FirstFault fault args e) ↔ ∀ i key v, PairAt args i key v → ∀ e, ¬ fault key v e := by
  classical
  constructor
  · intro hsound i key v hpair e hfault
    have hsome : ∃ i key v e, PairAt args i key v ∧ fault key v e := ⟨i, key, v, e, hpair, hfault⟩
    obtain ⟨key, v, e, hpair, hfault⟩ := Nat.find_spec hsome
    refine hsound e ⟨Nat.find hsome, key, v, hpair, hfault, ?_⟩
    intro j hj key' v' e' hpair' hfault'
    exact Nat.find_min hsome hj ⟨key', v', e', hpair', hfault'⟩
  · rintro hsound e ⟨i, key, v, hpair, hfault, -⟩
    exact hsound i key v hpair e hfault

end FirstFault

/-- A key that is no keyword has no name. -/
theorem keyName_of_not_keyword (h : ∀ name, key ≠ .keyword name) :
    keyName text key = .error (.keyType (text key)) := by
  cases key with
  | keyword name => exact absurd rfl (h name)
  | _ => rfl

/-- A keyword has no fault as a key. -/
theorem not_keyFault_keyword : ¬ KeyFault text (.keyword name) v e := by
  rintro ⟨h⟩
  exact h name rfl

/-- A key that is no keyword has one fault, with its text. -/
theorem keyFault_iff (h : ∀ name, key ≠ .keyword name) :
    KeyFault text key v e ↔ e = .keyType (text key) := by
  constructor
  · rintro ⟨⟩
    rfl
  · rintro rfl
    exact .key h

/-- A pair without a fault in its key has a keyword there. -/
theorem forall_not_keyFault_iff :
    (∀ e, ¬ KeyFault text key v e) ↔ ∃ name, key = .keyword name := by
  constructor
  · intro hsound
    by_contra hkey
    exact hsound _ (.key (not_exists.1 hkey))
  · rintro ⟨name, rfl⟩ e
    exact not_keyFault_keyword

/-- Under a keyword the fault can only be the value. -/
theorem literalFault_keyword_iff :
    LiteralFault text (.keyword name) v e
      ↔ ¬ v.IsLiteral ∧ e = .disallowedField name (text v) := by
  constructor
  · rintro (h | h)
    · exact absurd h not_keyFault_keyword
    · exact ⟨h, rfl⟩
  · rintro ⟨h, rfl⟩
    exact .value h

/-- The key is looked at first. -/
theorem literalFault_iff (h : ∀ name, key ≠ .keyword name) :
    LiteralFault text key v e ↔ e = .keyType (text key) := by
  constructor
  · rintro (hfault | -)
    · exact (keyFault_iff h).1 hfault
    · exact absurd rfl (h _)
  · intro he
    exact .key ((keyFault_iff h).2 he)

/-- A pair without a fault has a keyword and a literal. -/
theorem forall_not_literalFault_iff :
    (∀ e, ¬ LiteralFault text key v e) ↔ (∃ name, key = .keyword name) ∧ v.IsLiteral := by
  constructor
  · intro hsound
    obtain ⟨name, rfl⟩ := forall_not_keyFault_iff.1 fun e (h : KeyFault text key v e) =>
      hsound e (.key h)
    refine ⟨⟨name, rfl⟩, ?_⟩
    by_contra hv
    exact hsound _ (.value hv)
  · rintro ⟨⟨name, rfl⟩, hv⟩ e hfault
    exact (literalFault_keyword_iff.1 hfault).1 hv

/-- A pair with a keyword is inserted, and the rest after it. -/
theorem insertPairs_cons_keyword :
    insertPairs text (.keyword name :: v :: rest) o = insertPairs text rest (o.insert name v) :=
  rfl

/-- A pair with a keyword is checked for its value. -/
theorem checkPairs_cons_keyword :
    checkPairs text (.keyword name :: v :: rest)
      = if v.isFieldLiteral then checkPairs text rest
        else .error (.disallowedField name (text v)) :=
  rfl

/-- Fields are set until the first faulty key. -/
theorem insertPairs_eq_error_iff :
    insertPairs text args o = .error e ↔ FirstFault (KeyFault text) args e := by
  induction args using List.twoStepInduction generalizing o with
  | nil => exact ⟨nofun, fun h => absurd h not_firstFault_nil⟩
  | singleton x => exact ⟨nofun, fun h => absurd h not_firstFault_singleton⟩
  | cons_cons key v rest ih _ =>
    by_cases hkey : ∃ name, key = .keyword name
    · obtain ⟨name, rfl⟩ := hkey
      rw [insertPairs_cons_keyword, firstFault_cons_of_sound fun _ => not_keyFault_keyword]
      exact ih
    · have hkey : ∀ name, key ≠ .keyword name := not_exists.1 hkey
      rw [insertPairs, keyName_of_not_keyword hkey,
        firstFault_cons_of_fault fun _ => keyFault_iff hkey]
      exact ⟨fun h => (Except.error.inj h).symm, fun h => congrArg _ h.symm⟩

/-- Pairs are checked until the first that is faulty in an object literal. -/
theorem checkPairs_eq_error_iff :
    checkPairs text args = .error e ↔ FirstFault (LiteralFault text) args e := by
  induction args using List.twoStepInduction with
  | nil => exact ⟨nofun, fun h => absurd h not_firstFault_nil⟩
  | singleton x => exact ⟨nofun, fun h => absurd h not_firstFault_singleton⟩
  | cons_cons key v rest ih _ =>
    -- The key is checked before the value, so a wrong key hides a wrong value.
    by_cases hkey : ∃ name, key = .keyword name
    · obtain ⟨name, rfl⟩ := hkey
      rw [checkPairs_cons_keyword]
      by_cases hv : v.IsLiteral
      · rw [if_pos (Value.isFieldLiteral_iff.2 hv),
          firstFault_cons_of_sound fun _ h => (literalFault_keyword_iff.1 h).1 hv]
        exact ih
      · rw [if_neg (mt Value.isFieldLiteral_iff.1 hv),
          firstFault_cons_of_fault fun _ => literalFault_keyword_iff.trans (and_iff_right hv)]
        exact ⟨fun h => (Except.error.inj h).symm, fun h => congrArg _ h.symm⟩
    · have hkey : ∀ name, key ≠ .keyword name := not_exists.1 hkey
      rw [checkPairs, keyName_of_not_keyword hkey,
        firstFault_cons_of_fault fun _ => literalFault_iff hkey]
      exact ⟨fun h => (Except.error.inj h).symm, fun h => congrArg _ h.symm⟩

/-! ## Values -/

/-- No pair has the name as its key. -/
def Unnamed (args : List Value) (name : String) : Prop :=
  ∀ i v, ¬ PairAt args i (.keyword name) v

/-- The last pair with the name as its key has the value. -/
def HeldLast (args : List Value) (name : String) (v : Value) : Prop :=
  ∃ i, PairAt args i (.keyword name) v ∧ ∀ j, i < j → ∀ w, ¬ PairAt args j (.keyword name) w

/-- A name is unnamed in a list if its first key is another and the rest does not name it. -/
theorem unnamed_cons :
    Unnamed (key :: v :: rest) name ↔ key ≠ .keyword name ∧ Unnamed rest name := by
  constructor
  · intro h
    refine ⟨fun hkey => h 0 v (pairAt_cons_zero.2 ⟨hkey, rfl⟩), fun i w hpair => ?_⟩
    exact h (i + 1) w (pairAt_cons_succ.2 hpair)
  · rintro ⟨hkey, h⟩ i w hpair
    cases i with
    | zero => exact hkey (pairAt_cons_zero.1 hpair).1
    | succ i => exact h i w (pairAt_cons_succ.1 hpair)

/-- The last pair with a name is the last of the others, or the first pair if there is none. -/
theorem heldLast_cons {w : Value} :
    HeldLast (key :: w :: rest) name v
      ↔ HeldLast rest name v ∨ (key = .keyword name ∧ w = v) ∧ Unnamed rest name := by
  constructor
  · rintro ⟨i, hpair, hafter⟩
    cases i with
    | zero =>
      refine .inr ⟨pairAt_cons_zero.1 hpair, fun j u hu => ?_⟩
      exact hafter (j + 1) (Nat.succ_pos j) u (pairAt_cons_succ.2 hu)
    | succ i =>
      refine .inl ⟨i, pairAt_cons_succ.1 hpair, fun j hj u hu => ?_⟩
      exact hafter (j + 1) (Nat.succ_lt_succ hj) u (pairAt_cons_succ.2 hu)
  · -- The last place is in the rest, or it is the first pair and the rest has no other.
    rintro (⟨i, hpair, hafter⟩ | ⟨hfirst, hrest⟩)
    · refine ⟨i + 1, pairAt_cons_succ.2 hpair, fun j hj u hu => ?_⟩
      obtain ⟨j, rfl⟩ := Nat.exists_eq_succ_of_ne_zero (Nat.ne_zero_of_lt hj)
      exact hafter j (Nat.lt_of_succ_lt_succ hj) u (pairAt_cons_succ.1 hu)
    · refine ⟨0, pairAt_cons_zero.2 hfirst, fun j hj u hu => ?_⟩
      obtain ⟨j, rfl⟩ := Nat.exists_eq_succ_of_ne_zero (Nat.ne_zero_of_lt hj)
      exact hrest j u (pairAt_cons_succ.1 hu)

/-- Each name gets the value of its last pair, and keeps its value if it has none. -/
theorem get?_of_insertPairs (h : insertPairs text args o = .ok o') (name : String) (v : Value) :
    o'.fields.get? name = some v
      ↔ HeldLast args name v ∨ Unnamed args name ∧ o.fields.get? name = some v := by
  induction args using List.twoStepInduction generalizing o with
  | nil =>
    cases h
    simp [HeldLast, Unnamed, not_pairAt_nil]
  | singleton x =>
    cases h
    simp [HeldLast, Unnamed, not_pairAt_singleton]
  | cons_cons key w rest ih _ =>
    by_cases hkey : ∃ key', key = .keyword key'
    · obtain ⟨key, rfl⟩ := hkey
      rw [insertPairs_cons_keyword] at h
      rw [ih h, heldLast_cons, unnamed_cons, insert, Dict.get?_insert]
      -- The pair is set before the others, so it counts only where none of them has its name.
      by_cases hname : name = key
      · subst hname
        simp [and_comm]
      · simp [hname, Ne.symm hname]
    · rw [insertPairs, keyName_of_not_keyword (not_exists.1 hkey)] at h
      cases h

/-! ## Construction -/

/-- Fields can be set from pairs exactly when all keys are keywords. -/
theorem exists_insertPairs_eq_ok_iff :
    (∃ o', insertPairs text args o = .ok o')
      ↔ ∀ i key v, PairAt args i key v → ∃ name, key = .keyword name := by
  calc (∃ o', insertPairs text args o = .ok o')
    _ ↔ ∀ e, insertPairs text args o ≠ .error e := by cases insertPairs text args o <;> simp
    _ ↔ ∀ e, ¬ FirstFault (KeyFault text) args e := by simp only [ne_eq, insertPairs_eq_error_iff]
    _ ↔ _ := by simp only [forall_not_firstFault_iff, forall_not_keyFault_iff]

/-- The check succeeds exactly when all keys are keywords and all values literals. -/
theorem checkPairs_eq_ok_iff :
    checkPairs text args = .ok ()
      ↔ ∀ i key v, PairAt args i key v → (∃ name, key = .keyword name) ∧ v.IsLiteral := by
  calc checkPairs text args = .ok ()
    _ ↔ ∀ e, checkPairs text args ≠ .error e := by cases checkPairs text args <;> simp
    _ ↔ ∀ e, ¬ FirstFault (LiteralFault text) args e := by
      simp only [ne_eq, checkPairs_eq_error_iff]
    _ ↔ _ := by simp only [forall_not_firstFault_iff, forall_not_literalFault_iff]

/-- Arguments that pair up are inserted into the empty object. -/
theorem ofPairs_of_even (heven : args.length % 2 = 0) :
    ofPairs text args = insertPairs text args empty := by
  rw [ofPairs, if_neg (not_not.2 heven)]

/-- A key without a value is an error. -/
theorem ofPairs_of_odd (hodd : args.length % 2 = 1) :
    ofPairs text args = .error (.oddArguments args.length) := by
  rw [ofPairs, if_pos (by omega)]

/-- It is one for literals too, before any pair is looked at. -/
theorem ofLiteral_of_odd (hodd : args.length % 2 = 1) :
    ofLiteral text args = .error (.oddArguments args.length) := by
  rw [ofLiteral, if_pos (by omega)]

/-- An object can be made of a list exactly when its length is even and all keys are keywords. -/
theorem exists_ofPairs_eq_ok_iff :
    (∃ o, ofPairs text args = .ok o)
      ↔ args.length % 2 = 0
        ∧ ∀ i key, args[2 * i]? = some key → ∃ name, key = .keyword name := by
  rcases Nat.mod_two_eq_zero_or_one args.length with heven | hodd
  · rw [ofPairs_of_even heven, exists_insertPairs_eq_ok_iff, and_iff_right heven]
    refine ⟨fun h i key hkey => ?_, fun h i key v hpair => h i key hpair.1⟩
    obtain ⟨v, hpair⟩ := exists_pairAt_of_key heven hkey
    exact h i key v hpair
  · simp [ofPairs_of_odd hodd, hodd]

/-- The fields are the names of the list, each with the value of its last pair. -/
theorem mem_entries_of_ofPairs (h : ofPairs text args = .ok o) (name : String) (v : Value) :
    (name, v) ∈ o.fields.entries ↔ HeldLast args name v := by
  have heven : args.length % 2 = 0 := (exists_ofPairs_eq_ok_iff.1 ⟨o, h⟩).1
  rw [ofPairs_of_even heven] at h
  have hget := get?_of_insertPairs h name v
  simp only [empty, Dict.get?_empty, reduceCtorEq, and_false, or_false] at hget
  rw [← hget]
  exact ⟨Dict.get?_eq_some_of_mem, Dict.mem_of_lookup⟩

/-- Fields from any values fail on an odd number of arguments and else at the first faulty key. -/
theorem ofPairs_eq_error_iff :
    ofPairs text args = .error e
      ↔ args.length % 2 = 1 ∧ e = .oddArguments args.length
        ∨ args.length % 2 = 0 ∧ FirstFault (KeyFault text) args e := by
  rcases Nat.mod_two_eq_zero_or_one args.length with heven | hodd
  · rw [ofPairs_of_even heven, insertPairs_eq_error_iff]
    simp [heven]
  · rw [ofPairs_of_odd hodd]
    simp [hodd, eq_comm]

/-- An object literal makes the object of its pairs if all values are literals. -/
theorem ofLiteral_eq_ok_iff :
    ofLiteral text args = .ok o
      ↔ ofPairs text args = .ok o ∧ ∀ i v, args[2 * i + 1]? = some v → v.IsLiteral := by
  rcases Nat.mod_two_eq_zero_or_one args.length with heven | hodd
  · -- The check of the literals goes first and changes nothing that is built after it.
    rw [ofLiteral, if_neg (not_not.2 heven)]
    constructor
    · intro h
      cases hcheck : checkPairs text args with
      | error e =>
        rw [hcheck] at h
        nomatch h
      | ok _ =>
        rw [hcheck] at h
        refine ⟨h, fun i v hv => ?_⟩
        obtain ⟨key, hpair⟩ := exists_pairAt_of_value hv
        exact (checkPairs_eq_ok_iff.1 hcheck i key v hpair).2
    · rintro ⟨h, hliteral⟩
      have hkeys := (exists_ofPairs_eq_ok_iff.1 ⟨o, h⟩).2
      have hcheck : checkPairs text args = .ok () := by
        refine checkPairs_eq_ok_iff.2 fun i key v hpair => ?_
        exact ⟨hkeys i key hpair.1, hliteral i v hpair.2⟩
      rw [hcheck]
      exact h
  · simp [ofLiteral_of_odd hodd, ofPairs_of_odd hodd]

/-- Fields from literals fail on an odd number of arguments and else at the first faulty pair. -/
theorem ofLiteral_eq_error_iff :
    ofLiteral text args = .error e
      ↔ args.length % 2 = 1 ∧ e = .oddArguments args.length
        ∨ args.length % 2 = 0 ∧ FirstFault (LiteralFault text) args e := by
  rcases Nat.mod_two_eq_zero_or_one args.length with heven | hodd
  · rw [ofLiteral, if_neg (not_not.2 heven), ← checkPairs_eq_error_iff]
    cases hcheck : checkPairs text args with
    | error e' => simp [heven]
    | ok _ =>
      -- What the check lets through has no faulty key left.
      have hkeys : ∃ o, insertPairs text args empty = .ok o :=
        exists_insertPairs_eq_ok_iff.2 fun i key v hpair =>
          (checkPairs_eq_ok_iff.1 hcheck i key v hpair).1
      obtain ⟨o, ho⟩ := hkeys
      simp [ofPairs_of_even heven, ho, heven]
  · rw [ofLiteral_of_odd hodd]
    simp [hodd, eq_comm]

/-- What the constructors make of a list of arguments. From any values an object is made exactly
when the length is even and all values at even places are keywords. It has no prototype, and its
fields, listed by strictly increasing name, are the names with the values of their last pairs. An
object literal makes the same object of those lists whose values at odd places are literals.
Both refuse a list of odd length by its length, and any other by the fault of the first faulty pair,
where a faulty key counts before the value. So an object literal refuses every list in which some
value is no literal, whatever pairs follow. -/
theorem construction_by_places (text : Value → String) (args : List Value) :
    ((∃ o, ofPairs text args = .ok o)
      ↔ args.length % 2 = 0
        ∧ ∀ i key, args[2 * i]? = some key → ∃ name, key = .keyword name)
    ∧ (∀ o, ofPairs text args = .ok o →
      o.prototype = none
      ∧ o.fields.entries.Pairwise (fun a b => a.1 < b.1)
      ∧ ∀ name v, (name, v) ∈ o.fields.entries ↔ HeldLast args name v)
    ∧ (∀ e, ofPairs text args = .error e
      ↔ args.length % 2 = 1 ∧ e = .oddArguments args.length
        ∨ args.length % 2 = 0 ∧ FirstFault (KeyFault text) args e)
    ∧ (∀ o, ofLiteral text args = .ok o
      ↔ ofPairs text args = .ok o ∧ ∀ i v, args[2 * i + 1]? = some v → v.IsLiteral)
    ∧ (∀ e, ofLiteral text args = .error e
      ↔ args.length % 2 = 1 ∧ e = .oddArguments args.length
        ∨ args.length % 2 = 0 ∧ FirstFault (LiteralFault text) args e)
    ∧ ∀ i v, args[2 * i + 1]? = some v → ¬ v.IsLiteral → ∃ e, ofLiteral text args = .error e := by
  refine ⟨exists_ofPairs_eq_ok_iff, fun o ho => ?_, fun e => ofPairs_eq_error_iff,
    fun o => ofLiteral_eq_ok_iff, fun e => ofLiteral_eq_error_iff, fun i v hv hliteral => ?_⟩
  · exact ⟨prototype_of_ofPairs ho, o.fields.sorted, mem_entries_of_ofPairs ho⟩
  · cases h : ofLiteral text args with
    | error e => exact ⟨e, rfl⟩
    | ok o => exact absurd ((ofLiteral_eq_ok_iff.1 h).2 i v hv) hliteral

/-- Two pairs with the same key, the first with a value that no object literal holds. -/
def overwritten : List Value :=
  [.keyword "a", .null, .keyword "b", .bool true, .keyword "a", .bool false]

/-- Six arguments that name the same field more than once: the last value counts, and the literals
fail at the first pair with a value that is none. -/
theorem construction_by_places_overwritten :
    (∃ o, ofPairs Store.empty.text overwritten = .ok o ∧ o.prototype = none
      ∧ ("a", .bool false) ∈ o.fields.entries)
    ∧ ofLiteral Store.empty.text overwritten
      = .error (.disallowedField "a" (Store.empty.text .null)) := by
  obtain ⟨hok, hfields, -, -, herror, -⟩ := construction_by_places Store.empty.text overwritten
  constructor
  · have hkeys : ∀ i key, overwritten[2 * i]? = some key → ∃ name, key = .keyword name := by
      intro i key hkey
      match i, hkey with
      | 0, rfl | 1, rfl | 2, rfl => exact ⟨_, rfl⟩
    obtain ⟨o, ho⟩ := hok.2 ⟨rfl, hkeys⟩
    obtain ⟨hprototype, -, hmem⟩ := hfields o ho
    refine ⟨o, ho, hprototype, (hmem "a" (.bool false)).2 ⟨2, ⟨rfl, rfl⟩, ?_⟩⟩
    -- No fourth pair follows.
    rintro j hj w ⟨hkey, -⟩
    have hlt : 2 * j < 6 := (List.getElem?_eq_some_iff.1 hkey).1
    omega
  · exact (herror _).2 (.inr ⟨rfl, 0, _, _, ⟨rfl, rfl⟩, .value nofun, nofun⟩)

end Object

end ObjectLisp
