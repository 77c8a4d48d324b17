import ObjectLisp.Proofs.Eval.Objectless
import ObjectLisp.Proofs.Session.Objects

/-!
# What a session can get hold of

A session of sources, and of programs without values, gets hold of the primitives of its registry
and of no others: primitives are not made, they are only passed on. And if the registry has no
primitive that makes objects, then the session makes none, and no error is about one.

Both are one invariant, `Store.Confined`, that each statement keeps. It speaks about the primitives
that are allowed, which at the end are those that the registry holds.
-/

namespace ObjectLisp

variable {allowed : Primitive → Prop} {host : Host} {scope : FrameId} {s t : Store}
  {i j : Interpreter}

/-! ## Confinement -/

/-- The store is well-formed, and without objects if the allowed primitives make none. -/
structure Store.Confined (allowed : Primitive → Prop) (s : Store) : Prop where
  wellFormed : s.WellFormed allowed
  objects : MakesNoObjects allowed → s.objects = #[]

/-- The error is not about objects if the allowed primitives make none. -/
def RuntimeError.IsConfined (allowed : Primitive → Prop) (e : RuntimeError) : Prop :=
  MakesNoObjects allowed → e.isAboutObjects = false

/-- Evaluation of an expression without values keeps the store confined. -/
theorem EvaluatesTo.confined {e : Expr} {r : Except RuntimeError Value}
    (h : EvaluatesTo host scope e s r t) (hs : s.Confined allowed)
    (hscope : scope.index < s.frames.size) (he : e.values = []) :
    t.Confined allowed ∧ ∀ err, r = .error err → err.IsConfined allowed := by
  have hvalid : e.IsValid allowed s := Expr.isValid_of_values_eq_nil he
  have hobjectless (hallowed : MakesNoObjects allowed) :=
    h.objectless hallowed hs.wellFormed (hs.objects hallowed) hscope hvalid
  refine ⟨⟨(h.steps hs.wellFormed hscope hvalid).2, fun hallowed => (hobjectless hallowed).1⟩, ?_⟩
  exact fun err herr hallowed => (hobjectless hallowed).2 err herr

/-! ## Statements -/

/-- A statement keeps the store confined, and so is its error. -/
theorem Performs.confined {st : Statement} {r : Except RuntimeError Effect}
    (h : Performs host scope st s r t) (hs : s.Confined allowed)
    (hscope : scope.index < s.frames.size) (hst : st.expr.values = []) :
    t.Confined allowed ∧ ∀ err, r = .error err → err.IsConfined allowed := by
  cases h with
  | define h _ =>
    obtain ⟨ht, -⟩ := h.confined hs hscope hst
    have hv := h.isValid hs.wellFormed hscope (Expr.isValid_of_values_eq_nil hst)
    exact ⟨⟨ht.wellFormed.assign _ _ hv, ht.objects⟩, nofun⟩
  | redefine h _ =>
    refine ⟨(h.confined hs hscope hst).1, ?_⟩
    rintro _ ⟨⟩ _
    rfl
  | print h => exact ⟨(h.confined hs hscope hst).1, nofun⟩
  | fail h =>
    obtain ⟨ht, herr⟩ := h.confined hs hscope hst
    refine ⟨ht, ?_⟩
    rintro _ ⟨⟩
    exact herr _ rfl

/-- A store stays confined while statements are performed. -/
theorem Completes.confined {ss : List Statement} {effects : List Effect}
    (h : Completes host scope ss s effects t) (hs : s.Confined allowed)
    (hscope : scope.index < s.frames.size) (hss : ∀ st ∈ ss, st.expr.values = []) :
    t.Confined allowed := by
  induction h with
  | nil s => exact hs
  | cons h _ ih =>
    obtain ⟨hst, hss⟩ := List.forall_mem_cons.1 hss
    exact ih (h.confined hs hscope hst).1 ((h.binds hscope).scope_lt hscope) hss

/-- An execution keeps the store confined, and so is its error. -/
theorem Executes.confined {ss : List Statement} {r : Except RuntimeError (List String)}
    (h : Executes host scope ss s r t) (hs : s.Confined allowed)
    (hscope : scope.index < s.frames.size) (hss : ∀ st ∈ ss, st.expr.values = []) :
    t.Confined allowed ∧ ∀ err, r = .error err → err.IsConfined allowed := by
  rcases executes_iff.1 h with
    ⟨effects, hdone, rfl⟩ | ⟨done, st, rest, effects, u, err, rfl, hdone, hfail, rfl⟩
  · exact ⟨hdone.confined hs hscope hss, nofun⟩
  · have hu := hdone.confined hs hscope fun st hst => hss st (List.mem_append_left _ hst)
    obtain ⟨ht, herr⟩ :=
      hfail.confined hu ((hdone.binds hscope).scope_lt hscope) (hss st (by simp))
    refine ⟨ht, ?_⟩
    rintro _ ⟨⟩
    exact herr err rfl

/-! ## Sessions -/

/-- A request without values keeps the store confined, and so is its error. -/
theorem Answers.confined {q : Request} {a : Except Error (List String)} (h : Answers host i q a j)
    (hq : q.IsSource) (hroot : i.HasRoot) (hi : i.store.Confined allowed) :
    j.store.Confined allowed ∧ ∀ e, a = .error (.runtime e) → e.IsConfined allowed := by
  cases hprogram : q.program with
  | error e =>
    obtain ⟨rfl, rfl⟩ := (answers_iff_of_error hprogram).1 h
    exact ⟨hi, nofun⟩
  | ok p =>
    obtain ⟨r, hexecutes, rfl, -⟩ := (answers_iff_of_ok hprogram).1 h
    obtain ⟨hj, hr⟩ := hexecutes.confined hi hroot (hq.program hprogram)
    refine ⟨hj, fun e he => ?_⟩
    cases r with
    | ok lines => nomatch he
    | error err =>
      cases he
      exact hr _ rfl

/-- It stays confined in a session, and so are the errors answered there. -/
theorem Session.confined {log : List (Request × Except Error (List String))}
    (h : Session host i log j) (hlog : ∀ entry ∈ log, entry.1.IsSource) (hroot : i.HasRoot)
    (hi : i.store.Confined allowed) :
    j.store.Confined allowed
    ∧ ∀ q e, (q, .error (.runtime e)) ∈ log → e.IsConfined allowed := by
  induction h with
  | nil i => exact ⟨hi, nofun⟩
  | @cons i j k q a log h _ ih =>
    obtain ⟨hq, hlog⟩ := List.forall_mem_cons.1 hlog
    obtain ⟨hj, herror⟩ := h.confined hq hroot hi
    obtain ⟨hk, herrors⟩ := ih hlog (h.hasRoot hroot) hj
    refine ⟨hk, fun q' e hmem => ?_⟩
    rcases List.mem_cons.1 hmem with heq | hmem
    · cases heq
      exact herror e rfl
    · exact herrors q' e hmem

/-! ## Registries -/

/-- The primitive is in the registry. -/
def Registry.Holds (r : Registry) (p : Primitive) : Prop := ∃ name, r.get? name = some p

/-- Every primitive in a frame or in a field of an object is in the registry. -/
structure Store.HoldsOnly (r : Registry) (s : Store) : Prop where
  frames : ∀ id name p, (s.frame id).bindings.get? name = some (.primitive p) → r.Holds p
  fields : ∀ id name p, (s.object id).fields.get? name = some (.primitive p) → r.Holds p

/-- A store with valid values only holds the primitives of its registry. -/
theorem Store.WellFormed.holdsOnly {r : Registry} (h : s.WellFormed r.Holds) :
    s.HoldsOnly r where
  frames id name p hp := h.isValid_frame id name _ hp
  fields id name p hp := by
    unfold Store.object at hp
    by_cases hid : id.index < s.objects.size
    · rw [Array.getD_eq_getD_getElem?, Array.getElem?_eq_getElem hid] at hp
      exact (h.objects _ (Array.getElem_mem hid)).fields name _ hp
    · rw [Array.getD_eq_getD_getElem?, Array.getElem?_eq_none (Nat.le_of_not_lt hid)] at hp
      nomatch hp

/-- A fresh interpreter is confined to its registry. -/
theorem Interpreter.confined_ofRegistry (r : Registry) :
    (Interpreter.ofRegistry r).store.Confined r.Holds where
  wellFormed := wellFormed_ofRegistry fun e he => ⟨e.1, Dict.get?_eq_some_of_mem he⟩
  objects _ := rfl

/-- A session of sources and of programs without values holds only primitives of its registry, in
frames, in fields of objects and as results of evaluation. If the registry holds no primitive that
makes objects, there are none, and no error is about one. -/
theorem primitives_stay_confined (r : Registry)
    {log : List (Request × Except Error (List String))} (h : Session host (.ofRegistry r) log j)
    (hlog : ∀ entry ∈ log, entry.1.IsSource) :
    j.store.HoldsOnly r
    ∧ (∀ (scope : FrameId) (e : Expr) (res : Except RuntimeError Value) (t : Store),
        scope.index < j.store.frames.size → e.values = [] → EvaluatesTo host scope e j.store res t →
      t.HoldsOnly r ∧ ∀ p, res = .ok (.primitive p) → r.Holds p)
    ∧ (¬ r.Holds .makeObject → ¬ r.Holds .animal → ¬ r.Holds .dog → ¬ r.Holds .cat →
      j.store.objects = #[]
      ∧ (∀ q e, (q, .error (.runtime e)) ∈ log → e.isAboutObjects = false)
      ∧ ∀ (scope : FrameId) (e : Expr) (res : Except RuntimeError Value) (t : Store),
          scope.index < j.store.frames.size → e.values = [] →
          EvaluatesTo host scope e j.store res t →
        t.objects = #[] ∧ ∀ err, res = .error err → err.isAboutObjects = false) := by
  obtain ⟨hj, herrors⟩ := h.confined hlog (Interpreter.hasRoot_ofRegistry r)
    (Interpreter.confined_ofRegistry r)
  refine ⟨hj.wellFormed.holdsOnly, fun scope e res t hscope he heval => ?_, ?_⟩
  · refine ⟨(heval.confined hj hscope he).1.wellFormed.holdsOnly, ?_⟩
    rintro p rfl
    exact heval.isValid hj.wellFormed hscope (Expr.isValid_of_values_eq_nil he)
  · intro hobj hanimal hdog hcat
    have hnone : MakesNoObjects r.Holds := by
      rintro p hp
      cases p with
      | makeObject => exact absurd hp hobj
      | animal => exact absurd hp hanimal
      | dog => exact absurd hp hdog
      | cat => exact absurd hp hcat
      | arithmetic | isZero | field | host => rfl
    refine ⟨hj.objects hnone, fun q e hmem => herrors q e hmem hnone,
      fun scope e res t hscope he heval => ?_⟩
    obtain ⟨ht, herr⟩ := heval.confined hj hscope he
    exact ⟨ht.objects hnone, fun err hres => herr err hres hnone⟩

/-- Addition, field access and a host function, but nothing that makes objects. -/
def Registry.limited : Registry :=
  Registry.empty.registerAll [.arithmetic .add, .field, .host "id"]

/-- A primitive is handed back by a host function, and printed after it was kept in the frame of a
closure. -/
def passesPrimitiveOn : Program where
  statements :=
    [.define "plus" (.application (.var "id") [.var "+"]),
      .define "keep" (.lambda ["x"] (.lambda ["y"] (.var "x"))),
      .print (.application (.application (.var "keep") [.var "plus"]) [.null])]

/-- The primitive that was handed back is one of the registry. There is nothing to make an object
with, and so nothing whose field could be missed. -/
theorem primitives_stay_confined_limited :
    ∃ j, Session .echo (.ofRegistry .limited)
        [(.execute passesPrimitiveOn, .ok ["<primitive +>"]),
          (.run "(print (field (obj) :a))", .error (.runtime (.unboundVariable "obj")))] j
      ∧ j.store.HoldsOnly .limited
      ∧ (∃ t, EvaluatesTo .echo ⟨0⟩ (.var "plus") j.store (.ok (.primitive (.arithmetic .add))) t)
      ∧ Registry.limited.Holds (.arithmetic .add)
      ∧ j.store.objects = #[]
      ∧ (RuntimeError.unboundVariable "obj").isAboutObjects = false := by
  have hread : Reader.readProgram "(print (field (obj) :a))" = .ok
      ⟨[.print (.application (.var "field") [.application (.var "obj") [], .keyword "a"])]⟩ := by
    cbv
  have hrun : ((execute .echo 5 ⟨0⟩ passesPrimitiveOn
      (Interpreter.ofRegistry .limited).store).ending?.bind
      fun a => (execute .echo 5 ⟨0⟩
        ⟨[.print (.application (.var "field") [.application (.var "obj") [], .keyword "a"])]⟩
          a.2).ending?.map
          fun b => (a.1, b.1, b.2.frames.size, (b.2.frame ⟨0⟩).bindings.get? "plus"))
      = some (.ok ["<primitive +>"], .error (.unboundVariable "obj"), 3,
        some (.primitive (.arithmetic .add))) := by
    decide +kernel
  obtain ⟨⟨r, s⟩, hfirst, hrun⟩ := Option.bind_eq_some_iff.1 hrun
  obtain ⟨⟨r', t⟩, hsecond, hrun⟩ := Option.map_eq_some_iff.1 hrun
  obtain ⟨rfl, rfl, hsize, hplus⟩ : r = .ok _ ∧ r' = .error _ ∧ t.frames.size = 3
      ∧ (t.frame ⟨0⟩).bindings.get? "plus" = some (.primitive (.arithmetic .add)) := by
    simpa using hrun
  have hsession : Session .echo (.ofRegistry .limited)
      [(.execute passesPrimitiveOn, .ok ["<primitive +>"]),
        (.run "(print (field (obj) :a))", .error (.runtime (.unboundVariable "obj")))]
      ⟨t, ⟨0⟩⟩ := by
    refine .cons (j := ⟨s, ⟨0⟩⟩) ?_ (.cons ?_ (.nil _))
    · exact (answers_iff_of_ok rfl).2 ⟨_, ⟨5, hfirst⟩, rfl, rfl⟩
    · exact (answers_iff_of_ok (q := .run _) hread).2 ⟨_, ⟨5, hsecond⟩, rfl, rfl⟩
  have hsource : passesPrimitiveOn.IsSource := by
    intro st hst
    simp only [passesPrimitiveOn, List.mem_cons, List.not_mem_nil, or_false] at hst
    rcases hst with rfl | rfl | rfl <;> rfl
  have hplus' : EvaluatesTo .echo ⟨0⟩ (.var "plus") t (.ok (.primitive (.arithmetic .add))) t := by
    refine ⟨1, ?_⟩
    rw [evaluate_var, Store.get?_eq, hplus]
    rfl
  have hnone : ∀ p, p.makesObjects = true → ¬ Registry.limited.Holds p := by
    rintro p hp ⟨name, hname⟩
    have hall : ∀ e ∈ Registry.limited.primitives.entries, e.2.makesObjects = false := by
      decide +kernel
    exact Bool.false_ne_true ((hall _ (Dict.mem_of_lookup hname)).symm.trans hp)
  obtain ⟨hholds, heval, hobjects⟩ := primitives_stay_confined .limited hsession
    (List.forall_mem_cons.2 ⟨hsource, List.forall_mem_singleton.2 trivial⟩)
  obtain ⟨hempty, herrors, -⟩ :=
    hobjects (hnone _ rfl) (hnone _ rfl) (hnone _ rfl) (hnone _ rfl)
  have hscope : (0 : Nat) < t.frames.size := hsize ▸ Nat.succ_pos 2
  exact ⟨_, hsession, hholds, ⟨t, hplus'⟩, (heval _ _ _ _ hscope rfl hplus').2 _ rfl, hempty,
    herrors (.run "(print (field (obj) :a))") _ (by simp)⟩

end ObjectLisp
