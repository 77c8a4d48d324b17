import ObjectLisp.Proofs.Object.Layering
import ObjectLisp.Proofs.Reader.Joining
import ObjectLisp.Proofs.Session

/-!
# Objects of a session

Programs that hold no values of their own, as all do that are read from a source, build objects out
of older ones only. So a session that begins with the standard primitives leaves a `Sound` store, in
which no object refers to itself, and some errors never occur: what it prints and reports are texts
of values, written out in full (`Store.Shows`), and the errors are `RuntimeError.IsRegular`.
-/

namespace ObjectLisp

variable {host : Host} {scope : FrameId} {s t : Store} {i j : Interpreter}

/-! ## Programs without values -/

mutual

/-- What is read holds no values. -/
theorem Reader.Derives.values_eq_nil {ts : List Token} {e : Expr} (h : Derives ts e) :
    e.values = [] := by
  cases h with
  | var | number | bool | null | keyword => rfl
  | lambda _ _ _ _ _ hbody _ => exact hbody.values_eq_nil
  | conditional _ _ _ h₁ h₂ h₃ _ =>
    rw [Expr.values, h₁.values_eq_nil, h₂.values_eq_nil, h₃.values_eq_nil]
    rfl
  | application _ _ hhead hargs _ =>
    rw [Expr.values, hhead.values_eq_nil, hargs.allValues_eq_nil]
    rfl

/-- No computed value occurs in expressions that are read. -/
theorem Reader.DerivesAll.allValues_eq_nil {ts : List Token} {es : List Expr}
    (h : DerivesAll ts es) : Expr.allValues es = [] := by
  cases h with
  | nil => rfl
  | cons h hs =>
    rw [Expr.allValues, h.values_eq_nil, hs.allValues_eq_nil]
    rfl

end

/-- No statement holds a value that was computed before. -/
def Program.IsSource (p : Program) : Prop := ∀ st ∈ p.statements, st.expr.values = []

/-- The request is a source, or a program without values. -/
def Request.IsSource : Request → Prop
  | run _ => True
  | execute p => p.IsSource

/-- A program that is read is one a source can hold. -/
theorem Reader.DerivesProgram.isSource {ts : List Token} {ss : List Statement}
    (h : DerivesProgram ts ss) : Program.IsSource ⟨ss⟩ := by
  induction h with
  | nil => exact nofun
  | cons h _ ih =>
    refine List.forall_mem_cons.2 ⟨?_, ih⟩
    cases h with
    | define _ _ _ _ h _ => exact h.values_eq_nil
    | print _ _ _ h _ => exact h.values_eq_nil

/-- The program of a request from a source is one a source can hold. -/
theorem Request.IsSource.program {q : Request} (h : q.IsSource) {p : Program}
    (hp : q.program = .ok p) : p.IsSource := by
  cases q with
  | run source =>
    obtain ⟨ts, -, hread⟩ := Reader.exists_tokens_of_readProgram hp
    obtain ⟨us, rest, -, hderives, -⟩ := Reader.exists_derivesProgram hread
    exact hderives.isSource
  | execute p' =>
    cases hp
    exact h

/-! ## Texts and errors -/

/-- The store is well-formed, whatever the primitives, and layered. -/
structure Store.Sound (s : Store) : Prop where
  wellFormed : s.WellFormed fun _ => True
  layered : s.Layered

/-- The text is that of the value, written out in full. -/
def Store.Displays (s : Store) (v : Value) (text : String) : Prop :=
  s.text v = text ∧ s.Writes v text

/-- The text is that of some value, written out in full. -/
def Store.Shows (s : Store) (text : String) : Prop := ∃ v, s.Displays v text

/-- A value that is written is valid. -/
theorem Store.Writes.isValid {v : Value} {text : String} (h : s.Writes v text) :
    v.IsValid (fun _ => True) s := by
  cases h with
  | number | bool | null | keyword | primitive => exact trivial
  | closure hc => exact (Array.getElem?_eq_some_iff.1 hc).1
  | object ho => exact (Array.getElem?_eq_some_iff.1 ho).1

namespace Store.Sound

/-- In a sound store, the text of a value is that value written out. -/
theorem displays_text (hs : s.Sound) {v : Value} (hv : v.IsValid (fun _ => True) s) :
    s.Displays v (s.text v) :=
  ⟨rfl, hs.layered.writes_text hs.wellFormed hv⟩

/-- So it shows a value. -/
theorem shows_text (hs : s.Sound) {v : Value} (hv : v.IsValid (fun _ => True) s) :
    s.Shows (s.text v) :=
  ⟨v, hs.displays_text hv⟩

/-- What is written by the rules is the text of the value. -/
theorem text_eq (hs : s.Sound) {v : Value} {text : String} (h : s.Writes v text) :
    s.text v = text :=
  (hs.layered.writes_text hs.wellFormed h.isValid).unique h

/-- A value keeps its text. -/
theorem displays_of_steps (ht : t.Sound) (hst : s.Steps (fun _ => True) t) {v : Value}
    {text : String} (h : s.Displays v text) : t.Displays v text :=
  ⟨ht.text_eq (h.2.steps hst), h.2.steps hst⟩

/-- A text stays that of a value. -/
theorem shows_of_steps (ht : t.Sound) (hst : s.Steps (fun _ => True) t) {text : String}
    (h : s.Shows text) : t.Shows text :=
  h.imp fun _ hv => ht.displays_of_steps hst hv

end Store.Sound

namespace RuntimeError

/-- The texts of values that an error holds. The callee of an arity mismatch may also be the name of
a primitive. -/
def valueTexts : RuntimeError → List String
  | argumentType _ _ _ got => [got]
  | guardType got => [got]
  | notCallable value => [value]
  | keyType got => [got]
  | disallowedField _ got => [got]
  | invalidPrototype got => [got]
  | fieldNotFound _ object => [object]
  | _ => []

/-- The error speaks about values written out in full, prototypes play no part in it, and arguments
were counted for a closure or a primitive, not for a frame. -/
structure IsRegular (s : Store) (e : RuntimeError) : Prop where
  shows : ∀ text ∈ e.valueTexts, s.Shows text
  callee : ∀ callee expected got, e = .arityMismatch callee expected got →
    ((∃ id, s.text (.closure id) = callee ∧ s.Writes (.closure id) callee)
      ∨ ∃ p : Primitive, callee = p.name ∧ p.arity = some expected)
    ∧ ∀ params, callee ≠ "frame (" ++ " ".intercalate params ++ ")"
  ne_prototypeCycle : ∀ key, e ≠ .prototypeCycle key
  ne_invalidPrototype : ∀ got, e ≠ .invalidPrototype got

/-- The text for a frame is known by its first letters. -/
theorem ne_frame {callee : String} (h : callee.toList.take 2 ≠ ['f', 'r']) (params : List String) :
    callee ≠ "frame (" ++ " ".intercalate params ++ ")" := by
  rintro rfl
  simp at h

/-- A closure called with the wrong number of arguments is named by its text. -/
theorem isRegular_closureArity (hs : s.Sound) {id : ClosureId} (hid : id.index < s.closures.size)
    (expected got : Nat) :
    IsRegular s (.arityMismatch (s.text (.closure id)) expected got) := by
  have hwrites : s.Writes (.closure id) (s.text (.closure id)) :=
    hs.layered.writes_text hs.wellFormed hid
  refine ⟨nofun, ?_, nofun, nofun⟩
  rintro _ _ _ ⟨⟩
  refine ⟨.inl ⟨id, rfl, hwrites⟩, ne_frame ?_⟩
  simp [Store.text, Store.textWithin]

/-- A primitive called with the wrong number of arguments is named by its name, with the number it
takes. -/
theorem isRegular_primitiveArity {p : Primitive} {expected : Nat} (hp : p.arity = some expected)
    (got : Nat) : IsRegular s (.arityMismatch p.name expected got) := by
  refine ⟨nofun, ?_, nofun, nofun⟩
  rintro _ _ _ ⟨⟩
  refine ⟨.inr ⟨p, rfl, hp⟩, ne_frame ?_⟩
  cases p with
  | arithmetic op => cases op <;> decide
  | isZero | field | animal | dog | cat => decide
  | makeObject | host => nomatch hp

/-- An error about the text of one value is regular. -/
theorem isRegular_of_shows {e : RuntimeError} (h : ∀ text ∈ e.valueTexts, s.Shows text)
    (harity : ∀ callee expected got, e ≠ .arityMismatch callee expected got)
    (hcycle : ∀ key, e ≠ .prototypeCycle key) (hinvalid : ∀ got, e ≠ .invalidPrototype got) :
    e.IsRegular s :=
  ⟨h, fun callee expected got he => absurd he (harity callee expected got), hcycle, hinvalid⟩

/-- The errors of programs in sound stores are regular. -/
theorem isRegular_of_raises (hs : s.Sound) {e : RuntimeError}
    (h : s.Raises (fun _ => True) e) : e.IsRegular s := by
  cases h with
  | closureArity hid expected got => exact isRegular_closureArity hs hid expected got
  | primitiveArity hp got => exact isRegular_primitiveArity hp got
  | prototypeCycle h => exact absurd h (hs.layered.search_ne_cyclic _ nofun)
  | unboundVariable | redefinition | oddArguments =>
    exact isRegular_of_shows nofun nofun nofun nofun
  | fieldNotFound hid =>
    exact isRegular_of_shows (List.forall_mem_singleton.2 (hs.shows_text hid)) nofun nofun nofun
  | argumentType hv | guardType hv | notCallable hv | keyType hv | disallowedField hv =>
    exact isRegular_of_shows (List.forall_mem_singleton.2 (hs.shows_text hv)) nofun nofun nofun

/-- A regular error stays one while the store goes on. -/
theorem IsRegular.steps {e : RuntimeError} (h : e.IsRegular s) (ht : t.Sound)
    (hst : s.Steps (fun _ => True) t) : e.IsRegular t := by
  refine ⟨fun text htext => ht.shows_of_steps hst (h.shows text htext), ?_, h.ne_prototypeCycle,
    h.ne_invalidPrototype⟩
  intro callee expected got he
  obtain ⟨hcallee, hne⟩ := h.callee callee expected got he
  refine ⟨hcallee.imp_left ?_, hne⟩
  rintro ⟨id, -, hwrites⟩
  exact ⟨id, ht.text_eq (hwrites.steps hst), hwrites.steps hst⟩

end RuntimeError

/-! ## Statements -/

/-- An expression without a computed value is valid in every store. -/
theorem Statement.isValid_expr {st : Statement} (h : st.expr.values = []) :
    st.expr.IsValid (fun _ => True) s :=
  Expr.isValid_of_values_eq_nil h

/-- A statement keeps the store sound. -/
theorem Performs.sound {st : Statement} {r : Except RuntimeError Effect}
    (h : Performs host scope st s r t) (hs : s.Sound) (hscope : scope.index < s.frames.size)
    (hst : st.expr.values = []) : t.Sound ∧ s.Steps (fun _ => True) t := by
  obtain ⟨hsteps, ht⟩ := h.steps hs.wellFormed hscope (Statement.isValid_expr hst)
  exact ⟨⟨ht, hs.layered.steps hsteps⟩, hsteps⟩

/-- Each line is the text of the value that it was printed for. -/
def DisplaysLines (host : Host) (scope : FrameId) (ss : List Statement) (s t : Store)
    (lines : List String) : Prop :=
  ∀ n line, lines[n]? = some line → ∃ v, PrintsAt host scope ss s n v line ∧ t.Displays v line

/-- The line of a statement stands before the lines of the others. -/
theorem Performs.displaysLines {st : Statement} {rest : List Statement} {effect : Effect}
    {lines : List String} {u : Store} (h : Performs host scope st s (.ok effect) u)
    (hs : s.Sound) (hscope : scope.index < s.frames.size) (hst : st.expr.values = [])
    (hu : u.Sound) (ht : t.Sound) (hut : u.Steps (fun _ => True) t)
    (hlines : DisplaysLines host scope rest u t lines) :
    DisplaysLines host scope (st :: rest) s t (effect.line?.toList ++ lines) := by
  intro n line hline
  rcases Nat.lt_or_ge n effect.line?.toList.length with hn | hn
  · -- The line is the one that the first statement printed.
    rw [List.getElem?_append_left hn] at hline
    have heffect : effect.line? = some line := Option.mem_toList.1 (List.mem_of_getElem? hline)
    obtain rfl : n = 0 := by
      rw [heffect] at hn
      exact Nat.lt_one_iff.1 hn
    obtain ⟨e, v, rfl, he, htext⟩ := h.exists_printed heffect
    have hv := he.isValid hs.wellFormed hscope (Statement.isValid_expr hst)
    refine ⟨v, ⟨[], e, rest, [], s, u, rfl, ⟨0, rfl⟩, rfl, he, htext⟩, ?_⟩
    exact ht.displays_of_steps hut (htext ▸ hu.displays_text hv)
  · rw [List.getElem?_append_right hn] at hline
    obtain ⟨v, hprints, hdisplays⟩ := hlines _ _ hline
    refine ⟨v, ?_, hdisplays⟩
    rw [← Nat.add_sub_cancel' hn]
    exact hprints.cons h

/-- Statements that complete keep the store sound, and print the texts of their values. -/
theorem Completes.sound {ss : List Statement} {effects : List Effect}
    (h : Completes host scope ss s effects t) (hs : s.Sound) (hscope : scope.index < s.frames.size)
    (hss : ∀ st ∈ ss, st.expr.values = []) :
    t.Sound ∧ s.Steps (fun _ => True) t
    ∧ DisplaysLines host scope ss s t (effects.filterMap Effect.line?) := by
  induction h with
  | nil s => exact ⟨hs, .refl, nofun⟩
  | @cons st rest effect effects s u t h hrest ih =>
    obtain ⟨hst, hss⟩ := List.forall_mem_cons.1 hss
    obtain ⟨hu, hsu⟩ := h.sound hs hscope hst
    obtain ⟨ht, hut, hlines⟩ := ih hu ((h.binds hscope).scope_lt hscope) hss
    refine ⟨ht, hsu.trans hut, ?_⟩
    have hfirst := h.displaysLines hs hscope hst hu ht hut hlines
    rw [List.filterMap_cons]
    cases heffect : effect.line? <;> rw [heffect] at hfirst <;> exact hfirst

/-- An execution keeps the store sound. It prints the texts of its values, or its error is
regular. -/
theorem Executes.sound {ss : List Statement} {r : Except RuntimeError (List String)}
    (h : Executes host scope ss s r t) (hs : s.Sound) (hscope : scope.index < s.frames.size)
    (hss : ∀ st ∈ ss, st.expr.values = []) :
    t.Sound ∧ s.Steps (fun _ => True) t
    ∧ match r with
      | .ok lines => DisplaysLines host scope ss s t lines
      | .error err => err.IsRegular t := by
  rcases executes_iff.1 h with
    ⟨effects, hdone, rfl⟩ | ⟨done, st, rest, effects, u, err, rfl, hdone, hfail, rfl⟩
  · exact hdone.sound hs hscope hss
  · obtain ⟨hu, hsu, -⟩ := hdone.sound hs hscope fun st hst => hss st (List.mem_append_left _ hst)
    have hst : st.expr.values = [] := hss st (by simp)
    have hscope' := (hdone.binds hscope).scope_lt hscope
    obtain ⟨ht, hut⟩ := hfail.sound hu hscope' hst
    have hraises := hfail.raises hu.wellFormed hscope' (Statement.isValid_expr hst)
    exact ⟨ht, hsu.trans hut, RuntimeError.isRegular_of_raises ht hraises⟩

/-! ## Sessions -/

/-- The line at the index `n` of the answer to a request is the text of the value `v`, which a print
statement of its program has. -/
def Request.PrintsAt (host : Host) (i : Interpreter) (q : Request) (n : Nat) (v : Value)
    (line : String) : Prop :=
  ∃ p, q.program = .ok p ∧ ObjectLisp.PrintsAt host i.root p.statements i.store n v line

/-- Each line of an answer is the text of the value that it was printed for, and its error is
regular. -/
def IsRegularAnswer (host : Host) (i : Interpreter) (q : Request) (s : Store) :
    Except Error (List String) → Prop
  | .ok lines => ∀ n line, lines[n]? = some line →
    ∃ v, q.PrintsAt host i n v line ∧ s.Displays v line
  | .error (.runtime e) => e.IsRegular s
  | .error (.read _) => True

/-- An answer stays regular. -/
theorem IsRegularAnswer.steps {q : Request} {a : Except Error (List String)}
    (h : IsRegularAnswer host i q s a) (ht : t.Sound) (hst : s.Steps (fun _ => True) t) :
    IsRegularAnswer host i q t a := by
  rcases a with (e | e) | lines
  · exact trivial
  · exact RuntimeError.IsRegular.steps h ht hst
  · intro n line hline
    obtain ⟨v, hprints, hdisplays⟩ := h n line hline
    exact ⟨v, hprints, ht.displays_of_steps hst hdisplays⟩

/-- A request without values keeps the store sound. -/
theorem Answers.sound {q : Request} {a : Except Error (List String)} (h : Answers host i q a j)
    (hq : q.IsSource) (hroot : i.HasRoot) (hi : i.store.Sound) :
    j.store.Sound ∧ i.store.Steps (fun _ => True) j.store
    ∧ IsRegularAnswer host i q j.store a := by
  cases hprogram : q.program with
  | error e =>
    obtain ⟨rfl, rfl⟩ := (answers_iff_of_error hprogram).1 h
    exact ⟨hi, .refl, trivial⟩
  | ok p =>
    obtain ⟨r, hexecutes, rfl, -⟩ := (answers_iff_of_ok hprogram).1 h
    obtain ⟨hj, hsteps, hr⟩ := hexecutes.sound hi hroot (hq.program hprogram)
    cases r with
    | error e => exact ⟨hj, hsteps, hr⟩
    | ok lines =>
      refine ⟨hj, hsteps, fun n line hline => ?_⟩
      obtain ⟨v, hprints, hdisplays⟩ := hr n line hline
      exact ⟨v, ⟨p, hprogram, hprints⟩, hdisplays⟩

/-- So do any number of requests. -/
theorem Session.sound {log : List (Request × Except Error (List String))}
    (h : Session host i log j) (hlog : ∀ entry ∈ log, entry.1.IsSource) (hroot : i.HasRoot)
    (hi : i.store.Sound) :
    j.store.Sound ∧ i.store.Steps (fun _ => True) j.store
    ∧ ∀ before q a after, log = before ++ (q, a) :: after →
      ∃ i', Session host i before i' ∧ IsRegularAnswer host i' q j.store a := by
  induction h with
  | nil i => exact ⟨hi, .refl, fun before q a after heq => by simp at heq⟩
  | @cons i j k q a log h _ ih =>
    obtain ⟨hq, hlog⟩ := List.forall_mem_cons.1 hlog
    obtain ⟨hj, hij, hanswer⟩ := h.sound hq hroot hi
    obtain ⟨hk, hjk, hanswers⟩ := ih hlog (h.hasRoot hroot) hj
    refine ⟨hk, hij.trans hjk, fun before q' a' after heq => ?_⟩
    -- The answer looked at is that of the first request or of a later one; either way the rest of
    -- the session only adds to the store.
    cases before with
    | nil =>
      cases heq
      exact ⟨i, .nil i, hanswer.steps hk hjk⟩
    | cons entry before =>
      cases heq
      obtain ⟨i', hbefore, hregular⟩ := hanswers before q' a' after rfl
      exact ⟨i', .cons h hbefore, hregular⟩

/-- A fresh interpreter has a sound store, since it has no object yet. -/
theorem Interpreter.sound_ofRegistry (r : Registry) : (Interpreter.ofRegistry r).store.Sound :=
  ⟨wellFormed_ofRegistry fun _ _ => trivial, nofun, nofun⟩

/-- A session with the standard primitives, of sources and of programs without values, leaves no
object that refers to itself, not even through others. Every prototype is an animal and has none
itself. Each line that was printed is the text of the value of its print statement, and each value in
an error is the text of a value, with all objects written out. No error is about a prototype, and
arguments were counted for closures and primitives only. -/
theorem objects_stay_acyclic {log : List (Request × Except Error (List String))}
    (h : Session host .standard log j) (hlog : ∀ entry ∈ log, entry.1.IsSource) :
    (∀ id, ¬ Relation.TransGen j.store.Refers id id)
    ∧ (∀ o ∈ j.store.objects, ∀ id, o.prototype = some id →
      ∃ a, j.store.objects[id.index]? = some a ∧ a.fields.names = ["furry", "legs", "noise"]
        ∧ a.prototype = none)
    ∧ (∀ before q lines after, log = before ++ (q, .ok lines) :: after →
      ∃ i, Session host .standard before i ∧ ∀ n line, lines[n]? = some line →
        ∃ v, q.PrintsAt host i n v line ∧ j.store.text v = line ∧ j.store.Writes v line)
    ∧ ∀ q e, (q, .error (.runtime e)) ∈ log → e.IsRegular j.store := by
  obtain ⟨hj, -, hanswers⟩ := h.sound hlog (Interpreter.hasRoot_ofRegistry _)
    (Interpreter.sound_ofRegistry _)
  -- Layers exclude circles: every object refers to lower ones only.
  refine ⟨hj.layered.acyclic, fun o ho id hid => ?_,
    fun before q lines after heq => hanswers before q _ after heq, fun q e hmem => ?_⟩
  · obtain ⟨i, hi⟩ := Array.mem_iff_getElem?.1 ho
    obtain ⟨-, furry, hanimal⟩ := hj.layered.prototype hi id hid
    exact ⟨_, hanimal, by cases furry <;> decide +kernel, rfl⟩
  · obtain ⟨before, after, heq⟩ := List.append_of_mem hmem
    obtain ⟨i, -, hregular⟩ := hanswers before q _ after heq
    exact hregular

/-- A dog, which inherits from an animal, and an object in a field of another one. -/
def nestedObjects : Program where
  statements :=
    [.define "d" (.application (.var "Dog") [.number 1, .bool true]),
      .define "o" (.application (.var "d") [.keyword "a", .keyword "b"]),
      .define "p" (.application (.var "o") [.keyword "x", .var "o"]),
      .print (.application (.var "field") [.var "d", .keyword "furry"]), .print (.var "p")]

/-- The objects are printed, and a search for a field that none of them has ends with an error that
shows them. -/
theorem objects_stay_acyclic_nestedObjects :
    ∃ j, Session .echo .standard
        [(.execute nestedObjects, .ok ["true", "(obj :x (obj :a :b proto:null) proto:null)"]),
          (.run "(print (field p :c))", .error (.runtime
            (.fieldNotFound "c" "(obj :x (obj :a :b proto:null) proto:null)")))] j
      ∧ j.store.objects.size = 4 ∧ (∀ id, ¬ Relation.TransGen j.store.Refers id id)
      ∧ (∃ v, (Request.execute nestedObjects).PrintsAt .echo .standard 1 v
          "(obj :x (obj :a :b proto:null) proto:null)"
        ∧ j.store.Writes v "(obj :x (obj :a :b proto:null) proto:null)")
      ∧ RuntimeError.IsRegular j.store
        (.fieldNotFound "c" "(obj :x (obj :a :b proto:null) proto:null)") := by
  have hread : Reader.readProgram "(print (field p :c))"
      = .ok ⟨[.print (.application (.var "field") [.var "p", .keyword "c"])]⟩ := by cbv
  -- Both requests are evaluated once, and the session is built from what they answer.
  have hrun : ((execute .echo 3 ⟨0⟩ nestedObjects Interpreter.standard.store).ending?.bind
      fun a => (execute .echo 3 ⟨0⟩
        ⟨[.print (.application (.var "field") [.var "p", .keyword "c"])]⟩ a.2).ending?.map
          fun b => (a.1, b.1, b.2.objects.size))
      = some (.ok ["true", "(obj :x (obj :a :b proto:null) proto:null)"],
        .error (.fieldNotFound "c" "(obj :x (obj :a :b proto:null) proto:null)"), 4) := by
    decide +kernel
  obtain ⟨⟨r, s⟩, hfirst, hrun⟩ := Option.bind_eq_some_iff.1 hrun
  obtain ⟨⟨r', t⟩, hsecond, hrun⟩ := Option.map_eq_some_iff.1 hrun
  obtain ⟨rfl, rfl, hsize⟩ : r = .ok _ ∧ r' = .error _ ∧ t.objects.size = 4 := by
    simpa using hrun
  have hsession : Session .echo .standard
      [(.execute nestedObjects, .ok ["true", "(obj :x (obj :a :b proto:null) proto:null)"]),
        (.run "(print (field p :c))", .error (.runtime
          (.fieldNotFound "c" "(obj :x (obj :a :b proto:null) proto:null)")))] ⟨t, ⟨0⟩⟩ := by
    -- The second request starts from the store that the first one left.
    refine .cons (j := ⟨s, ⟨0⟩⟩) ?_ (.cons ?_ (.nil _))
    · exact (answers_iff_of_ok rfl).2 ⟨_, ⟨3, hfirst⟩, rfl, rfl⟩
    · exact (answers_iff_of_ok (q := .run _) hread).2 ⟨_, ⟨3, hsecond⟩, rfl, rfl⟩
  have hsource : nestedObjects.IsSource := by
    intro st hst
    simp only [nestedObjects, List.mem_cons, List.not_mem_nil, or_false] at hst
    rcases hst with rfl | rfl | rfl | rfl | rfl <;> rfl
  obtain ⟨hacyclic, -, hlines, hregular⟩ := objects_stay_acyclic hsession
    (List.forall_mem_cons.2 ⟨hsource, List.forall_mem_singleton.2 trivial⟩)
  obtain ⟨i, hbefore, hprinted⟩ := hlines [] _ _ _ rfl
  obtain ⟨v, hprints, -, hwrites⟩ := hprinted 1 _ rfl
  cases hbefore
  exact ⟨_, hsession, hsize, hacyclic, ⟨v, hprints, hwrites⟩,
    hregular (.run "(print (field p :c))") _ (by simp)⟩

end ObjectLisp
