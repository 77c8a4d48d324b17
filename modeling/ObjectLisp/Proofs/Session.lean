import ObjectLisp.Interpreter
import ObjectLisp.Proofs.Eval.Transition

/-!
# Sessions

An interpreter is used by requests: a source is run, or a program is executed. `Answers` says what a
request returns and which interpreter it leaves, and a `Session` is any number of requests one after
another, whatever they return.

A request whose program can be read goes by the rules for statements (`answers_iff_of_ok`), so all
it does to the top-level frame is to add bindings (`Answers.exists_binds`), and in a session they
add up.
-/

namespace ObjectLisp

variable {host : Host} {i j : Interpreter}

/-! ## Requests -/

/-- A use of an interpreter. -/
inductive Request where
  | run (source : String)
  | execute (p : Program)

namespace Request

/-- The program to be executed, unless there is none to be read. -/
def program : Request → Except ReadError Program
  | run source => Reader.readProgram source
  | execute p => .ok p

/-- Do what the request asks for, within a depth. -/
def perform (host : Host) (depth : Nat) (i : Interpreter) :
    Request → Except ReadError (Outcome (List String))
  | run source => i.run host depth source
  | execute p => .ok (i.execute host depth p)

/-- A request is read and then executed. -/
theorem perform_eq (host : Host) (depth : Nat) (i : Interpreter) (q : Request) :
    q.perform host depth i = q.program.map (i.execute host depth) := by
  cases q <;> rfl

end Request

/-- A request is answered with lines or an error, and leaves an interpreter. -/
inductive Answers (host : Host) (i : Interpreter) (q : Request) :
    Except Error (List String) → Interpreter → Prop
  | unread {depth : Nat} {e : ReadError} (h : q.perform host depth i = .error e) :
      Answers host i q (.error (.read e)) i
  | failed {depth : Nat} {e : RuntimeError} {t : Store}
      (h : q.perform host depth i = .ok (.error e t)) :
      Answers host i q (.error (.runtime e)) ⟨t, i.root⟩
  | printed {depth : Nat} {lines : List String} {t : Store}
      (h : q.perform host depth i = .ok (.value lines t)) : Answers host i q (.ok lines) ⟨t, i.root⟩

/-- Requests and their answers, one after another. -/
inductive Session (host : Host) :
    Interpreter → List (Request × Except Error (List String)) → Interpreter → Prop
  | nil (i : Interpreter) : Session host i [] i
  | cons {i j k : Interpreter} {q : Request} {a : Except Error (List String)}
      {log : List (Request × Except Error (List String))} (h : Answers host i q a j)
      (hs : Session host j log k) : Session host i ((q, a) :: log) k

/-! ## Answers by the rules -/

/-- A request whose program cannot be read is answered with the error of the reader, and nothing
happens. -/
theorem answers_iff_of_error {q : Request} {e : ReadError} (hq : q.program = .error e)
    {a : Except Error (List String)} :
    Answers host i q a j ↔ a = .error (.read e) ∧ j = i := by
  have hperform (depth : Nat) : q.perform host depth i = .error e := by
    rw [q.perform_eq, hq]
    rfl
  constructor
  · rintro (h | h | h) <;> rw [hperform] at h <;> cases h
    exact ⟨rfl, rfl⟩
  · rintro ⟨rfl, rfl⟩
    exact .unread (hperform 0)

/-- A request whose program can be read is answered by the execution of its statements. -/
theorem answers_iff_of_ok {q : Request} {p : Program} (hq : q.program = .ok p)
    {a : Except Error (List String)} :
    Answers host i q a j ↔ ∃ r, Executes host i.root p.statements i.store r j.store
      ∧ a = r.mapError .runtime ∧ j.root = i.root := by
  have hperform (depth : Nat) : q.perform host depth i
      = .ok (executeAll host depth i.root p.statements i.store) := by
    rw [q.perform_eq, hq]
    rfl
  constructor
  · rintro (@⟨depth, _, h⟩ | @⟨depth, e, t, h⟩ | @⟨depth, lines, t, h⟩) <;>
      rw [hperform] at h
    · nomatch h
    · exact ⟨.error e, ⟨depth, by rw [Except.ok.inj h]; rfl⟩, rfl, rfl⟩
    · exact ⟨.ok lines, ⟨depth, by rw [Except.ok.inj h]; rfl⟩, rfl, rfl⟩
  · obtain ⟨t, root⟩ := j
    rintro ⟨r, ⟨depth, h⟩, rfl, rfl⟩
    -- The run ended, so it did not run out of fuel.
    cases hout : executeAll host depth i.root p.statements i.store with
    | value lines u =>
      rw [hout] at h
      cases h
      exact .printed ((hperform depth).trans (congrArg _ hout))
    | error e u =>
      rw [hout] at h
      cases h
      exact .failed ((hperform depth).trans (congrArg _ hout))
    | outOfFuel =>
      rw [hout] at h
      nomatch h

/-! ## Top-level bindings -/

/-- The frame of the top-level definitions is in the store. -/
def Interpreter.HasRoot (i : Interpreter) : Prop := i.root.index < i.store.frames.size

/-- A request adds bindings to the top-level frame, if anything. -/
theorem Answers.exists_binds {q : Request} {a : Except Error (List String)}
    (h : Answers host i q a j) (hi : i.HasRoot) :
    j.root = i.root ∧ ∃ bs, Store.Binds i.root bs i.store j.store := by
  cases hq : q.program with
  | error e =>
    obtain ⟨-, rfl⟩ := (answers_iff_of_error hq).1 h
    exact ⟨rfl, [], .refl _ hi⟩
  | ok p =>
    obtain ⟨r, hexecutes, -, hroot⟩ := (answers_iff_of_ok hq).1 h
    exact ⟨hroot, hexecutes.exists_binds hi⟩

/-- The top frame is still there after a request. -/
theorem Answers.hasRoot {q : Request} {a : Except Error (List String)} (h : Answers host i q a j)
    (hi : i.HasRoot) : j.HasRoot := by
  obtain ⟨hroot, bs, hbinds⟩ := h.exists_binds hi
  rw [Interpreter.HasRoot, hroot]
  exact hbinds.scope_lt hi

/-- So do any number of requests. -/
theorem Session.exists_binds {log : List (Request × Except Error (List String))}
    (h : Session host i log j) (hi : i.HasRoot) :
    j.root = i.root ∧ ∃ bs, Store.Binds i.root bs i.store j.store := by
  induction h with
  | nil i => exact ⟨rfl, [], .refl _ hi⟩
  | @cons i j k q a log h _ ih =>
    obtain ⟨hroot, bs, hbinds⟩ := h.exists_binds hi
    obtain ⟨hroot', bs', hbinds'⟩ := ih (h.hasRoot hi)
    rw [hroot] at hroot' hbinds'
    exact ⟨hroot', _, hbinds.trans hbinds'⟩

/-- A binding of the top-level frame stays through every session. -/
theorem Session.get?_eq_some {log : List (Request × Except Error (List String))}
    (h : Session host i log j) (hi : i.HasRoot) {name : String} {v : Value}
    (hv : (i.store.frame i.root).bindings.get? name = some v) :
    (j.store.frame j.root).bindings.get? name = some v := by
  obtain ⟨hroot, bs, hbinds⟩ := h.exists_binds hi
  rw [hroot]
  exact hbinds.get?_eq_some hv

/-- A fresh interpreter has its top frame. -/
theorem Interpreter.hasRoot_ofRegistry (r : Registry) : (Interpreter.ofRegistry r).HasRoot :=
  Nat.one_pos

/-- A new interpreter binds each name of its registry to the primitive. -/
theorem Interpreter.get?_ofRegistry {r : Registry} {name : String} {p : Primitive}
    (h : r.get? name = some p) :
    ((Interpreter.ofRegistry r).store.frame (Interpreter.ofRegistry r).root).bindings.get? name
      = some (.primitive p) := by
  have hnames : r.bindings.map (·.1) = r.primitives.entries.map (·.1) := by
    simp [Registry.bindings]
  have hnodup : (r.bindings.map (·.1)).Nodup := hnames ▸ r.primitives.nodup_names
  have hmem : (name, Value.primitive p) ∈ r.bindings :=
    List.mem_map.2 ⟨(name, p), Dict.mem_of_lookup h, rfl⟩
  exact (Dict.get?_ofList hnodup name).trans (Dict.lookup_eq_some_of_mem hnodup hmem)

/-- An execution goes to the end, or up to the first statement that fails, whatever comes after it.
Its result is one line for each print statement, or the error. The frame it takes place in keeps its
bindings and has a new one for each definition that was executed, with the value that the expression
had there, and all else that there was is unchanged. A name that the frame binds is never defined
again. A source that cannot be read changes nothing. So in a session no top-level name ever changes
its value, and that includes the names of the primitives. -/
theorem bindings_stay (host : Host) :
    (∀ (scope : FrameId) (ss : List Statement) (s t : Store)
        (r : Except RuntimeError (List String)), Executes host scope ss s r t ↔
      (∃ effects, Completes host scope ss s effects t ∧ r = .ok (effects.filterMap Effect.line?))
      ∨ ∃ done st rest effects u err, ss = done ++ st :: rest
        ∧ Completes host scope done s effects u ∧ Performs host scope st u (.error err) t
        ∧ r = .error err)
    ∧ (∀ (scope : FrameId) (done : List Statement) (effects : List Effect) (s t u : Store),
        scope.index < s.frames.size → Completes host scope done s effects u →
        (t = u ∨ ∃ st err, Performs host scope st u (.error err) t) →
      (effects.filterMap Effect.line?).length = done.countP Statement.isPrint
      ∧ (effects.filterMap Effect.binding?).map (·.1) = done.filterMap Statement.defined?
      ∧ Store.Binds scope (effects.filterMap Effect.binding?) s t
      ∧ ∀ before name e after, done = before ++ .define name e :: after →
        ∃ lines u v u', Executes host scope before s (.ok lines) u
          ∧ EvaluatesTo host scope e u (.ok v) u' ∧ (t.frame scope).bindings.get? name = some v)
    ∧ (∀ (scope : FrameId) (ss : List Statement) (s : Store) (name : String) (e : Expr),
        scope.index < s.frames.size → (s.frame scope).bindings.contains name = true →
        .define name e ∈ ss → ∀ lines t, ¬ Executes host scope ss s (.ok lines) t)
    ∧ (∀ (i : Interpreter) (source : String) (e : ReadError),
        Reader.readProgram source = .error e →
        ∀ a j, Answers host i (.run source) a j ↔ a = .error (.read e) ∧ j = i)
    ∧ (∀ (i j : Interpreter) log, i.HasRoot → Session host i log j → ∀ name v,
        (i.store.frame i.root).bindings.get? name = some v →
        (j.store.frame j.root).bindings.get? name = some v)
    ∧ (∀ (r : Registry) (j : Interpreter) log, Session host (.ofRegistry r) log j → ∀ name p,
        r.get? name = some p →
        (j.store.frame j.root).bindings.get? name = some (.primitive p)) := by
  refine ⟨fun scope ss s t r => executes_iff, ?_, ?_, ?_, ?_, ?_⟩
  · intro scope done effects s t u hscope hdone ht
    -- The statement that failed binds nothing, so what has been bound is the same before and after
    -- it.
    have hbinds : Store.Binds scope (effects.filterMap Effect.binding?) s t := by
      rcases ht with rfl | ⟨st, err, hfail⟩
      · exact hdone.binds hscope
      · exact hdone.binds_of_error hfail hscope
    refine ⟨hdone.length_lines, hdone.map_fst_bindings, hbinds, ?_⟩
    intro before name e after heq
    obtain ⟨lines, u, v, u', hbefore, he, hmem⟩ := hdone.exists_value heq
    exact ⟨lines, u, v, u', hbefore, he, hbinds.get?_eq_some_of_mem hmem⟩
  · intro scope ss s name e hscope hbound hmem lines t
    exact not_executes_ok_of_bound hscope hbound hmem lines
  · intro i source e hread a j
    exact answers_iff_of_error (q := .run source) hread
  · intro i j log hi h name v
    exact h.get?_eq_some hi
  · intro r j log h name p hp
    exact h.get?_eq_some (Interpreter.hasRoot_ofRegistry r) (Interpreter.get?_ofRegistry hp)

/-- A name is defined, a line is printed, the name of a primitive is defined again, and then another
name is defined. -/
def redefinesPrimitive : List Statement :=
  [.define "x" (.keyword "a"), .print .null, .define "+" .null, .define "y" .null]

/-- The third statement fails, and then the first one has made the only new binding. After a source
that cannot be read, too, the other name has its primitive. -/
theorem bindings_stay_redefinesPrimitive :
    ∃ t, Executes .echo ⟨0⟩ redefinesPrimitive Interpreter.standard.store
        (.error (.redefinition "+")) t
      ∧ Store.Binds ⟨0⟩ [("x", .keyword "a")] Interpreter.standard.store t
      ∧ (∀ lines u, ¬ Executes .echo ⟨0⟩ redefinesPrimitive Interpreter.standard.store
        (.ok lines) u)
      ∧ Session .echo .standard
        [(.execute ⟨redefinesPrimitive⟩, .error (.runtime (.redefinition "+"))),
          (.run "(", .error (.read .unexpectedEnd))] ⟨t, ⟨0⟩⟩
      ∧ (t.frame ⟨0⟩).bindings.get? "+" = some (.primitive (.arithmetic .add)) := by
  have hroot : (0 : Nat) < Interpreter.standard.store.frames.size := by decide +kernel
  have hread : Reader.readProgram "(" = .error .unexpectedEnd := by cbv
  obtain ⟨hlaw, hleaves, hbound, hunread, -, hprimitives⟩ := bindings_stay .echo
  let t := Interpreter.standard.store.assign ⟨0⟩ "x" (.keyword "a")
  have hdone : Completes .echo ⟨0⟩ (redefinesPrimitive.take 2) Interpreter.standard.store
      [.bound "x" (.keyword "a"), .printed (t.text .null)] t :=
    .cons (.define ⟨1, rfl⟩ (by decide +kernel)) (.cons (.print ⟨1, rfl⟩) (.nil t))
  have hfail : Performs .echo ⟨0⟩ (.define "+" .null) t (.error (.redefinition "+")) t :=
    .redefine ⟨1, rfl⟩ (by decide +kernel)
  have hexecutes : Executes .echo ⟨0⟩ redefinesPrimitive Interpreter.standard.store
      (.error (.redefinition "+")) t :=
    (hlaw _ _ _ _ _).2 (.inr ⟨_, _, _, _, _, _, rfl, hdone, hfail, rfl⟩)
  have hfails : Answers .echo .standard (.execute ⟨redefinesPrimitive⟩)
      (.error (.runtime (.redefinition "+"))) ⟨t, ⟨0⟩⟩ :=
    (answers_iff_of_ok rfl).2 ⟨_, hexecutes, rfl, rfl⟩
  have hsession : Session .echo .standard
      [(.execute ⟨redefinesPrimitive⟩, .error (.runtime (.redefinition "+"))),
        (.run "(", .error (.read .unexpectedEnd))] ⟨t, ⟨0⟩⟩ :=
    .cons hfails (.cons ((hunread _ _ _ hread _ _).2 ⟨rfl, rfl⟩) (.nil _))
  refine ⟨t, hexecutes, ?_, ?_, hsession, hprimitives _ _ _ hsession "+" _ (by decide +kernel)⟩
  · exact (hleaves _ _ _ _ _ _ hroot hdone (.inr ⟨_, _, hfail⟩)).2.2.1
  · refine hbound ⟨0⟩ _ _ "+" .null hroot (by decide +kernel) ?_
    exact List.mem_of_getElem? (i := 2) rfl

end ObjectLisp
