import ObjectLisp.Proofs.Registry

/-!
# The checks of arguments

`Primitive.signature` lists the kinds of argument that a primitive of fixed arity asks for. A call
with another number of arguments is refused as such, and a call with the right number is refused for
the first argument that is not of the kind in its place (`FirstMismatch`). Any other call does its
work, and a call that fails leaves the store as it was.

A primitive checks one argument after another, so the argument follows the signature: a check either
fails at its own place, or leaves the rest of the signature to the checks after it
(`Checked.argument`).

`Primitive.callByIndex` reads the arguments by their index, after the check of their number, and has
no outcome if there is no argument at an index. It has the outcomes of `Primitive.call`, so the
number that is checked covers every index that is read.
-/

namespace ObjectLisp

variable {α : Type} {host : Host} {s : Store} {p : Primitive} {types : List ArgumentType}
  {args : List Value} {t : ArgumentType} {v : Value}

/-! ## Signatures -/

/-- The kinds of argument that a primitive asks for, if their number is fixed. -/
def Primitive.signature : Primitive → Option (List ArgumentType)
  | arithmetic _ => some [.number, .number]
  | isZero => some [.number]
  | makeObject => none
  | field => some [.object, .keyword]
  | animal => some [.boolean]
  | dog => some [.number, .boolean]
  | cat => some [.number, .boolean]
  | .host _ _ => none

/-- The arity of a primitive is the number of arguments in its signature. -/
theorem Primitive.arity_eq (p : Primitive) : p.arity = p.signature.map List.length := by
  cases p <;> rfl

/-- The value is of the kind. -/
inductive Value.HasType : Value → ArgumentType → Prop
  | number (x : Float) : HasType (.number x) .number
  | boolean (b : Bool) : HasType (.bool b) .boolean
  | keyword (name : String) : HasType (.keyword name) .keyword
  | object (id : ObjectId) : HasType (.object id) .object

/-- Exactly the values of the kind have a content. -/
def IsContent (content : Value → Option α) (t : ArgumentType) : Prop :=
  ∀ v, (∃ a, content v = some a) ↔ v.HasType t

/-- The values with a number are the numbers. -/
theorem isContent_number : IsContent Value.number? .number := by
  intro v
  constructor
  · rintro ⟨x, h⟩
    cases v <;> cases h
    exact .number x
  · intro h
    cases h with
    | number x => exact ⟨x, rfl⟩

/-- The values with a truth value are the truth values. -/
theorem isContent_boolean : IsContent Value.bool? .boolean := by
  intro v
  constructor
  · rintro ⟨b, h⟩
    cases v <;> cases h
    exact .boolean b
  · intro h
    cases h with
    | boolean b => exact ⟨b, rfl⟩

/-- The values with a name are the keywords. -/
theorem isContent_keyword : IsContent Value.keyword? .keyword := by
  intro v
  constructor
  · rintro ⟨name, h⟩
    cases v <;> cases h
    exact .keyword name
  · intro h
    cases h with
    | keyword name => exact ⟨name, rfl⟩

/-- The values with an object identity are the objects. -/
theorem isContent_object : IsContent Value.object? .object := by
  intro v
  constructor
  · rintro ⟨id, h⟩
    cases v <;> cases h
    exact .object id
  · intro h
    cases h with
    | object id => exact ⟨id, rfl⟩

/-! ## Mismatches -/

/-- The argument at the index `i`, counted from zero, is not of the kind that the signature asks for
in its place, and all arguments before it are. -/
structure FirstMismatch (types : List ArgumentType) (args : List Value) (i : Nat)
    (t : ArgumentType) (v : Value) : Prop where
  expected : types[i]? = some t
  given : args[i]? = some v
  mismatch : ¬ v.HasType t
  before : ∀ j < i, ∀ u w, types[j]? = some u → args[j]? = some w → w.HasType u

namespace FirstMismatch

/-- There is one first mismatch. -/
theorem unique {i i' : Nat} {t' : ArgumentType} {v' : Value} (h : FirstMismatch types args i t v)
    (h' : FirstMismatch types args i' t' v') : i = i' ∧ t = t' ∧ v = v' := by
  obtain rfl : i = i' := by
    rcases Nat.lt_trichotomy i i' with hlt | heq | hlt
    · exact absurd (h'.before i hlt t v h.expected h.given) h.mismatch
    · exact heq
    · exact absurd (h.before i' hlt t' v' h'.expected h'.given) h'.mismatch
  exact ⟨rfl, Option.some.inj (h.expected.symm.trans h'.expected),
    Option.some.inj (h.given.symm.trans h'.given)⟩

/-- The first argument is a mismatch. -/
theorem head (h : ¬ v.HasType t) : FirstMismatch (t :: types) (v :: args) 0 t v :=
  ⟨rfl, rfl, h, nofun⟩

/-- The first argument is none, so the first mismatch is among the others. -/
theorem tail {i : Nat} {u : ArgumentType} {w : Value} (hv : v.HasType t)
    (h : FirstMismatch types args i u w) : FirstMismatch (t :: types) (v :: args) (i + 1) u w where
  expected := h.expected
  given := h.given
  mismatch := h.mismatch
  before j hj u' w' hu' hw' := by
    cases j with
    | zero =>
      cases hu'
      cases hw'
      exact hv
    | succ j => exact h.before j (Nat.lt_of_succ_lt_succ hj) u' w' hu' hw'

end FirstMismatch

/-- No argument is a mismatch if all are of the kinds that are asked for. -/
theorem not_firstMismatch (h : List.Forall₂ Value.HasType args types) {i : Nat} :
    ¬ FirstMismatch types args i t v := by
  intro hmismatch
  obtain ⟨hi, heq⟩ := List.getElem?_eq_some_iff.1 hmismatch.given
  obtain ⟨hi', heq'⟩ := List.getElem?_eq_some_iff.1 hmismatch.expected
  refine hmismatch.mismatch ?_
  rw [← heq, ← heq']
  exact (List.forall₂_iff_get.1 h).2 i hi hi'

/-! ## Calls -/

/-- An outcome after the checks of some arguments, of which the first is at the index `start`: it is
the refusal of the first mismatch, or there is none and it is the outcome of the work. -/
def Checked (p : Primitive) (start : Nat) (types : List ArgumentType) (args : List Value)
    (s : Store) (work : Outcome Value → Prop) (x : Outcome Value) : Prop :=
  (∃ i t v, FirstMismatch types args i t v
    ∧ x = .error (.argumentType p.name (start + i + 1) t (s.text v)) s)
  ∨ List.Forall₂ Value.HasType args types ∧ work x

variable {start : Nat} {work : Outcome Value → Prop}

/-- Where no argument is left, the work is done. -/
theorem Checked.nil {x : Outcome Value} (h : work x) : Checked p start [] [] s work x :=
  .inr ⟨.nil, h⟩

/-- The check of one argument fails at its place or goes on to the others. -/
theorem Checked.argument {content : Value → Option α} (hcontent : IsContent content t)
    {next : α → Action Value}
    (h : ∀ a, content v = some a → Checked p (start + 1) types args s work (next a s)) :
    Checked p start (t :: types) (v :: args) s work
      ((p.argument (start + 1) t content v >>= next) s) := by
  change Checked _ _ _ _ _ _ (Action.andThen _ next s)
  unfold Action.andThen Primitive.argument
  -- An argument of another type is the first mismatch; after one of the right type the others count
  -- on from it.
  cases hv : content v with
  | none =>
    have hmismatch : ¬ v.HasType t := by
      intro htype
      obtain ⟨a, ha⟩ := (hcontent v).2 htype
      nomatch hv.symm.trans ha
    exact .inl ⟨0, t, v, .head hmismatch, rfl⟩
  | some a =>
    have htype : v.HasType t := (hcontent v).1 ⟨a, hv⟩
    rcases h a hv with ⟨i, u, w, hmismatch, hx⟩ | ⟨hargs, hwork⟩
    · refine .inl ⟨i + 1, u, w, .tail htype hmismatch, ?_⟩
      rwa [Nat.add_right_comm start 1 i] at hx
    · exact .inr ⟨.cons htype hargs, hwork⟩

namespace Primitive

/-- The outcome of a call whose arguments are of the right kinds: the field that is looked up, or a
value. -/
def Works (p : Primitive) (args : List Value) (s : Store) (x : Outcome Value) : Prop :=
  match p with
  | field => ∃ id name, args = [.object id, .keyword name]
    ∧ x = Action.readOrFail (·.lookup id name) s
  | _ => ∃ v u, x = .value v u

/-- The dogs and cats check a number and a truth value. -/
theorem checked_kindOfAnimal (p : Primitive) (fields : Float → List (String × Value))
    (a b : Value) (s : Store) :
    Checked p 0 [.number, .boolean] [a, b] s (fun x => ∃ v u, x = .value v u)
      (p.kindOfAnimal fields a b s) :=
  .argument isContent_number fun _ _ => .argument isContent_boolean fun _ _ => .nil ⟨_, _, rfl⟩

/-- A call with the right number of arguments checks them in order and then does its work. -/
theorem checked_call (host : Host) (hp : p.signature = some types)
    (hlength : args.length = types.length) (s : Store) :
    Checked p 0 types args s (p.Works args s) (p.call host args s) := by
  cases p with
  | makeObject | host name id => nomatch hp
  | arithmetic op =>
    -- The number of arguments names each of them, and the checks are made in their order.
    cases hp
    obtain ⟨a, b, rfl⟩ := List.length_eq_two.1 hlength
    exact .argument isContent_number fun x _ => .argument isContent_number fun y _ =>
      .nil ⟨_, _, rfl⟩
  | isZero =>
    cases hp
    obtain ⟨a, rfl⟩ := List.length_eq_one_iff.1 hlength
    exact .argument isContent_number fun x _ => .nil ⟨_, _, rfl⟩
  | field =>
    cases hp
    obtain ⟨a, b, rfl⟩ := List.length_eq_two.1 hlength
    refine .argument isContent_object fun id hid => .argument isContent_keyword fun name hname => ?_
    obtain rfl := Value.eq_object_of_object? hid
    cases b <;> cases hname
    exact .nil ⟨id, name, rfl, rfl⟩
  | animal =>
    cases hp
    obtain ⟨a, rfl⟩ := List.length_eq_one_iff.1 hlength
    exact .argument isContent_boolean fun furry _ => .nil ⟨_, _, rfl⟩
  | dog | cat =>
    cases hp
    obtain ⟨a, b, rfl⟩ := List.length_eq_two.1 hlength
    exact checked_kindOfAnimal _ _ a b s

/-! ## Arguments by index -/

/-- A computation that may come to an argument that is not there, and has no outcome then. -/
abbrev Indexed (β : Type) : Type := Store → Option (Outcome β)

/-- A computation that comes to no argument. -/
def Indexed.of {β : Type} (x : Action β) : Indexed β := fun s => some (x s)

/-- Go on with the content of the argument at an index, which has to be of the expected kind. -/
def argumentAt {β : Type} (p : Primitive) (args : List Value) (i : Nat) (expected : ArgumentType)
    (content : Value → Option α) (next : α → Indexed β) : Indexed β := fun s =>
  args[i]?.bind fun v =>
    match p.argument (i + 1) expected content v s with
    | .value a t => next a t
    | .error e t => some (.error e t)
    | .outOfFuel => some .outOfFuel

/-- A call after the check of the number of its arguments. -/
def workByIndex (host : Host) (p : Primitive) (args : List Value) : Indexed Value :=
  match p with
  | arithmetic op =>
    p.argumentAt args 0 .number Value.number? fun x =>
      p.argumentAt args 1 .number Value.number? fun y => .of (pure (.number (op.apply x y)))
  | isZero => p.argumentAt args 0 .number Value.number? fun x => .of (pure (.bool (x == 0)))
  | field =>
    p.argumentAt args 0 .object Value.object? fun id =>
      p.argumentAt args 1 .keyword Value.keyword? fun name => .of (.readOrFail (·.lookup id name))
  | animal => p.argumentAt args 0 .boolean Value.bool? fun furry => .of (new (plainAnimal furry))
  | dog =>
    p.argumentAt args 0 .number Value.number? fun breed =>
      p.argumentAt args 1 .boolean Value.bool? fun furry =>
        .of (newKindOfAnimal [("breed", .number breed), ("noise", .keyword "woof")] furry)
  | cat =>
    p.argumentAt args 0 .number Value.number? fun color =>
      p.argumentAt args 1 .boolean Value.bool? fun furry =>
        .of (newKindOfAnimal [("fur-color", .number color), ("noise", .keyword "meow")] furry)
  | makeObject | .host _ _ => .of (p.call host args)

/-- Call a primitive, with the number of arguments checked first and the arguments read by their
index. -/
def callByIndex (host : Host) (p : Primitive) (args : List Value) : Indexed Value :=
  match p.arity with
  | none => p.workByIndex host args
  | some n =>
    if args.length ≠ n then .of (.fail (.arityMismatch p.name n args.length))
    else p.workByIndex host args

/-- An argument that is there is checked. -/
theorem argumentAt_eq {β : Type} {i : Nat} (hv : args[i]? = some v)
    (content : Value → Option α) {next : α → Indexed β} {f : α → Action β}
    (hnext : ∀ a s, next a s = some (f a s)) (s : Store) :
    p.argumentAt args i t content next s = some ((p.argument (i + 1) t content v >>= f) s) := by
  unfold argumentAt
  rw [hv, Option.bind_some]
  change _ = some (Action.andThen _ f s)
  unfold Action.andThen
  cases p.argument (i + 1) t content v s with
  | value a u => exact hnext a u
  | error e u => rfl
  | outOfFuel => rfl

/-- No argument is read that is not there, and the outcome is that of the call. -/
theorem callByIndex_eq (host : Host) (p : Primitive) (args : List Value) (s : Store) :
    p.callByIndex host args s = some (p.call host args s) := by
  unfold callByIndex
  cases hp : p.arity with
  | none => cases p <;> first | rfl | nomatch hp
  | some n =>
    -- The list has as many arguments as are asked for, so every index taken is one of it.
    by_cases hn : args.length = n
    · simp only [if_neg (not_not_intro hn)]
      cases p with
      | makeObject | host name id => nomatch hp
      | isZero | animal =>
        cases hp
        obtain ⟨a, rfl⟩ := List.length_eq_one_iff.1 hn
        exact argumentAt_eq rfl _ (fun _ _ => rfl) s
      | arithmetic | field | dog | cat =>
        cases hp
        obtain ⟨a, b, rfl⟩ := List.length_eq_two.1 hn
        exact argumentAt_eq rfl _ (fun _ => argumentAt_eq rfl _ fun _ _ => rfl) s
    · simp only [if_pos hn, call_of_arity hp hn]
      rfl

/-! ## The law of the checks -/

/-- After the checks nothing fails but the search for a field, and it leaves the store as it was. -/
theorem Works.of_error {e : RuntimeError} {u : Store} (h : p.Works args s (.error e u)) :
    u = s ∧ e.category = .fieldNotFound := by
  cases p with
  | field =>
    obtain ⟨id, name, -, h⟩ := h
    simp only [Action.readOrFail, Store.lookup] at h
    cases hsearch : s.search name [] id <;> rw [hsearch] at h <;> cases h <;> exact ⟨rfl, rfl⟩
  | arithmetic | isZero | makeObject | animal | dog | cat | host =>
    obtain ⟨v, t, h⟩ := h
    nomatch h

/-- A call with the right number of arguments refuses the first that is not of the kind in its
place. -/
theorem call_of_firstMismatch (host : Host) (hp : p.signature = some types)
    (hlength : args.length = types.length) {i : Nat} (h : FirstMismatch types args i t v) :
    p.call host args s = .error (.argumentType p.name (i + 1) t (s.text v)) s := by
  rcases checked_call host hp hlength s with ⟨i', t', v', hmismatch, hcall⟩ | ⟨hargs, -⟩
  · obtain ⟨rfl, rfl, rfl⟩ := hmismatch.unique h
    rw [hcall, Nat.zero_add]
  · exact absurd h (not_firstMismatch hargs)

/-- A call whose arguments are all of the right kinds does its work. -/
theorem works_of_not_firstMismatch (host : Host) (hp : p.signature = some types)
    (hlength : args.length = types.length) (h : ∀ i t v, ¬ FirstMismatch types args i t v) :
    p.Works args s (p.call host args s) := by
  rcases checked_call host hp hlength s with ⟨i, t, v, hmismatch, -⟩ | ⟨-, hworks⟩
  · exact absurd hmismatch (h i t v)
  · exact hworks

/-- The ways in which a call fails: with the wrong number of arguments, at the first argument of
another kind, or in the search for a field. The store is what it was in all of them. -/
theorem call_error_cases {e : RuntimeError} {u : Store} (hp : p.signature = some types)
    (h : p.call host args s = .error e u) :
    u = s ∧ (args.length ≠ types.length ∧ e = .arityMismatch p.name types.length args.length
      ∨ args.length = types.length
        ∧ ((∃ i t v, FirstMismatch types args i t v
            ∧ e = .argumentType p.name (i + 1) t (s.text v))
          ∨ e.category = .fieldNotFound)) := by
  by_cases hlength : args.length = types.length
  · rcases checked_call host hp hlength s with ⟨i, t, v, hmismatch, hcall⟩ | ⟨-, hworks⟩
    · rw [hcall, Nat.zero_add] at h
      cases h
      exact ⟨rfl, .inr ⟨hlength, .inl ⟨i, t, v, hmismatch, rfl⟩⟩⟩
    · obtain ⟨rfl, hcategory⟩ := (h ▸ hworks).of_error
      exact ⟨rfl, .inr ⟨hlength, .inr hcategory⟩⟩
  · rw [call_of_arity (by rw [arity_eq, hp, Option.map_some]) hlength] at h
    cases h
    exact ⟨rfl, .inl ⟨hlength, rfl⟩⟩

/-- A standard primitive has its name in the table. -/
theorem name_of_standard {name : String} (h : Registry.standard.get? name = some p) :
    p.name = name := by
  rw [Registry.standard, Registry.get?_registerAll, Option.or_eq_some_iff] at h
  rcases h with h | ⟨-, h⟩
  · simpa using List.find?_some h
  · nomatch h

/-- A standard primitive has a fixed arity if it has a signature, and then takes as many arguments as
that has, and refuses any other number of them. With the right number it refuses the first argument
that is not of the kind in its place, and names its position, counted from one, the kind and the
argument. Without such an argument it does its work. A call that fails leaves the store as it was,
and no call reads an argument that is not there. -/
theorem call_checks_arguments {name : String} (hp : Registry.standard.get? name = some p) :
    p.name = name ∧ (p.arity = none ↔ p.signature = none)
      ∧ ∀ types, p.signature = some types → p.arity = some types.length
        ∧ ∀ (host : Host) (s : Store) (args : List Value),
          (p.call host args s = .error (.arityMismatch name types.length args.length) s
            ↔ args.length ≠ types.length)
          ∧ (args.length = types.length →
            (∀ position t text, p.call host args s = .error (.argumentType name position t text) s
              ↔ ∃ i v, FirstMismatch types args i t v ∧ position = i + 1 ∧ text = s.text v)
            ∧ ((∀ i t v, ¬ FirstMismatch types args i t v) → p.Works args s (p.call host args s)))
          ∧ (∀ e u, p.call host args s = .error e u → u = s)
          ∧ p.callByIndex host args s = some (p.call host args s) := by
  obtain rfl := name_of_standard hp
  refine ⟨rfl, by rw [arity_eq, Option.map_eq_none_iff], fun types htypes => ?_⟩
  have harity : p.arity = some types.length := by rw [arity_eq, htypes, Option.map_some]
  refine ⟨harity, fun host s args => ⟨⟨fun h => ?_, fun hlength => ?_⟩,
    fun hlength => ⟨fun position t text => ⟨fun h => ?_, ?_⟩,
      works_of_not_firstMismatch host htypes hlength⟩,
    fun e u h => (call_error_cases htypes h).1, p.callByIndex_eq host args s⟩⟩
  · -- None of the other failures is about the number of arguments.
    obtain ⟨-, ⟨hlength, -⟩ | ⟨-, ⟨i, t, v, -, herror⟩ | hcategory⟩⟩ := call_error_cases htypes h
    · exact hlength
    · nomatch herror
    · nomatch hcategory
  · rw [call_of_arity harity hlength]
    rfl
  · obtain ⟨-, ⟨hne, -⟩ | ⟨-, ⟨i, t', v, hmismatch, herror⟩ | hcategory⟩⟩ :=
      call_error_cases htypes h
    · exact absurd hlength hne
    · cases herror
      exact ⟨i, v, hmismatch, rfl, rfl⟩
    · nomatch hcategory
  · rintro ⟨i, v, hmismatch, rfl, rfl⟩
    exact call_of_firstMismatch host htypes hlength hmismatch

/-- A dog needs to know whether it is furry, and its breed is in order. -/
theorem call_checks_arguments_dog :
    Primitive.dog.call .echo [.number 5, .keyword "yes"] .empty
      = .error (.argumentType "Dog" 2 .boolean ":yes") .empty := by
  have hdog : Registry.standard.get? "Dog" = some .dog := by decide +kernel
  obtain ⟨-, -, hlaw⟩ := call_checks_arguments hdog
  obtain ⟨-, hcall⟩ := hlaw [.number, .boolean] rfl
  obtain ⟨-, hchecks, -⟩ := hcall .echo .empty [.number 5, .keyword "yes"]
  have hmismatch : FirstMismatch [.number, .boolean] [.number 5, .keyword "yes"] 1 .boolean
      (.keyword "yes") := .tail (.number 5) (.head nofun)
  refine ((hchecks rfl).1 2 .boolean ":yes").2 ⟨1, _, hmismatch, rfl, ?_⟩
  rw [Store.text, Store.textWithin]
  rfl

end Primitive

end ObjectLisp
