import ObjectLisp.Proofs.Eval.Depth

/-!
# Statements one after another

What a statement does is said by rules (`Performs`): it fails, or it has one `Effect` beside its
evaluation, a new binding or a printed line. Statements that all succeed are `Completes`, with their
effects in order.

Execution follows these rules (`executes_ok_iff`, `executes_error_iff`): the statements complete and
the result is what they have printed, or those before some statement complete, that one fails, and
the result is its error. So statements in two groups may as well be executed one group after the
other (`executes_append_iff`).
-/

namespace ObjectLisp

open ObjectLisp.Action

variable {α β : Type} {host : Host} {scope : FrameId} {s t u : Store}

/-! ## Endings -/

/-- How a finished action ended, and the store it left. -/
def Outcome.ending? : Outcome α → Option (Except RuntimeError α × Store)
  | .value a s => some (.ok a, s)
  | .error e s => some (.error e, s)
  | .outOfFuel => none

/-- Wherever an action that is approximated ends, the other one ends in the same way. -/
theorem Action.Approximates.ending? {x y : Action α} (h : x.Approximates y)
    {r : Except RuntimeError α} (hr : (x s).ending? = some (r, t)) :
    (y s).ending? = some (r, t) := by
  rcases h s with hout | heq
  · rw [hout] at hr
    nomatch hr
  · rwa [← heq]

/-- A sequence ends with the error of its first part, or the first part has a value and the second
one ends the sequence. -/
theorem ending?_bind_iff {x : Action α} {f : α → Action β} {r : Except RuntimeError β} :
    ((x >>= f) s).ending? = some (r, t) ↔
      (∃ err, (x s).ending? = some (.error err, t) ∧ r = .error err)
      ∨ ∃ a u, (x s).ending? = some (.ok a, u) ∧ (f a u).ending? = some (r, t) := by
  show (andThen x f s).ending? = some (r, t) ↔ _
  unfold andThen
  -- The first action has a value, fails or runs out of fuel, and only a value lets the second one
  -- start.
  cases x s with
  | value a u =>
    constructor
    · exact fun h => .inr ⟨a, u, rfl, h⟩
    · rintro (⟨err, h, -⟩ | ⟨a, u, h, hf⟩)
      · nomatch h
      · cases h
        exact hf
  | error err u =>
    constructor
    · intro h
      cases h
      exact .inl ⟨err, rfl, rfl⟩
    · rintro (⟨err, h, rfl⟩ | ⟨a, u, h, -⟩)
      · cases h
        rfl
      · nomatch h
  | outOfFuel =>
    constructor
    · exact nofun
    · rintro (⟨err, h, -⟩ | ⟨a, u, h, -⟩)
      · nomatch h
      · nomatch h

/-- What is done with the value of an action at the end does not change the store. -/
theorem ending?_map_iff {x : Action α} {f : α → β} {r : Except RuntimeError β} :
    ((x >>= fun a => pure (f a)) s).ending? = some (r, t) ↔
      ∃ r', (x s).ending? = some (r', t) ∧ r = r'.map f := by
  rw [ending?_bind_iff]
  constructor
  · rintro (⟨err, h, rfl⟩ | ⟨a, u, h, hf⟩)
    · exact ⟨.error err, h, rfl⟩
    · cases hf
      exact ⟨.ok a, h, rfl⟩
  · rintro ⟨err | a, h, rfl⟩
    · exact .inl ⟨err, h, rfl⟩
    · exact .inr ⟨a, t, h, rfl⟩

/-- The evaluation of an expression ends, with a value or an error, and leaves the store `t`. -/
def EvaluatesTo (host : Host) (scope : FrameId) (e : Expr) (s : Store)
    (r : Except RuntimeError Value) (t : Store) : Prop :=
  ∃ depth, (evaluate host depth scope e s).ending? = some (r, t)

/-- The execution of statements ends, with the printed lines or an error, and leaves the store
`t`. -/
def Executes (host : Host) (scope : FrameId) (ss : List Statement) (s : Store)
    (r : Except RuntimeError (List String)) (t : Store) : Prop :=
  ∃ depth, (executeAll host depth scope ss s).ending? = some (r, t)

/-! ## Rules -/

/-- What a statement that succeeds does beside its evaluation. -/
inductive Effect where
  | bound (name : String) (v : Value)
  | printed (line : String)

namespace Effect

/-- The binding that is made, if any. -/
def binding? : Effect → Option (String × Value)
  | bound name v => some (name, v)
  | printed _ => none

/-- The line that is printed, if any. -/
def line? : Effect → Option String
  | bound _ _ => none
  | printed line => some line

end Effect

/-- The expression that a statement evaluates. -/
def Statement.expr : Statement → Expr
  | define _ e => e
  | print e => e

/-- How a statement ends. -/
inductive Performs (host : Host) (scope : FrameId) :
    Statement → Store → Except RuntimeError Effect → Store → Prop
  | define {name : String} {e : Expr} {s t : Store} {v : Value}
      (h : EvaluatesTo host scope e s (.ok v) t)
      (hnew : (t.frame scope).bindings.contains name = false) :
      Performs host scope (.define name e) s (.ok (.bound name v)) (t.assign scope name v)
  | redefine {name : String} {e : Expr} {s t : Store} {v : Value}
      (h : EvaluatesTo host scope e s (.ok v) t)
      (hold : (t.frame scope).bindings.contains name = true) :
      Performs host scope (.define name e) s (.error (.redefinition name)) t
  | print {e : Expr} {s t : Store} {v : Value} (h : EvaluatesTo host scope e s (.ok v) t) :
      Performs host scope (.print e) s (.ok (.printed (t.text v))) t
  | fail {st : Statement} {s t : Store} {err : RuntimeError}
      (h : EvaluatesTo host scope st.expr s (.error err) t) :
      Performs host scope st s (.error err) t

/-- Statements that all succeed, with their effects in order. -/
inductive Completes (host : Host) (scope : FrameId) :
    List Statement → Store → List Effect → Store → Prop
  | nil (s : Store) : Completes host scope [] s [] s
  | cons {st : Statement} {rest : List Statement} {effect : Effect} {effects : List Effect}
      {s t u : Store} (h : Performs host scope st s (.ok effect) t)
      (hs : Completes host scope rest t effects u) :
      Completes host scope (st :: rest) s (effect :: effects) u

/-! ## Single statements -/

/-- Run one statement. -/
def executeOne (host : Host) (depth : Nat) (scope : FrameId) : Statement → Action Effect
  | .define name e => do
    let v ← evaluate host depth scope e
    .perform (·.define scope name v)
    return .bound name v
  | .print e => do
    let v ← evaluate host depth scope e
    let line ← .read (·.text v)
    return .printed line

/-- Statements run one by one. -/
theorem executeAll_cons (host : Host) (depth : Nat) (scope : FrameId) (st : Statement)
    (rest : List Statement) :
    executeAll host depth scope (st :: rest) = do
      let effect ← executeOne host depth scope st
      let lines ← executeAll host depth scope rest
      return effect.line?.toList ++ lines := by
  funext s
  -- A definition prints no line, and the other statement prints one before the rest.
  cases st with
  | define name e =>
    rw [executeAll, executeOne]
    simp only [bind, andThen, perform]
    cases evaluate host depth scope e s with
    | error err t => rfl
    | outOfFuel => rfl
    | value v t =>
      simp only
      obtain ⟨_ | _, u⟩ := t.define scope name v
      · rfl
      · simp only [pure]
        cases executeAll host depth scope rest u <;> rfl
  | print e =>
    rw [executeAll, executeOne]
    simp only [bind, andThen, Action.read]
    cases evaluate host depth scope e s with
    | error err t => rfl
    | outOfFuel => rfl
    | value v t =>
      simp only [pure]
      cases executeAll host depth scope rest t <;> rfl

/-- A statement that ends does so with more fuel, too. -/
theorem executeOne_approximates (host : Host) {depth depth' : Nat} (h : depth ≤ depth')
    (scope : FrameId) (st : Statement) :
    (executeOne host depth scope st).Approximates (executeOne host depth' scope st) := by
  cases st with
  | define name e => exact (evaluate_approximates host h scope e).bind fun v => .refl _
  | print e => exact (evaluate_approximates host h scope e).bind fun v => .refl _

/-- A definition is made exactly if the frame does not bind the name. -/
theorem ending?_define (s : Store) (scope : FrameId) (name : String) (v : Value) :
    (perform (·.define scope name v) s).ending? =
      if (s.frame scope).bindings.contains name then some (.error (.redefinition name), s)
      else some (.ok (), s.assign scope name v) := by
  simp only [perform, Store.define]
  cases (s.frame scope).bindings.contains name <;> rfl

/-- A statement ends as the rules say. -/
theorem performs_iff {st : Statement} {r : Except RuntimeError Effect} :
    Performs host scope st s r t ↔
      ∃ depth, (executeOne host depth scope st s).ending? = some (r, t) := by
  constructor
  · intro h
    cases h with
    | @define name e _ u v h hnew =>
      obtain ⟨depth, h⟩ := h
      refine ⟨depth, ending?_bind_iff.2 (.inr ⟨v, u, h, ending?_map_iff.2 ⟨.ok (), ?_, rfl⟩⟩)⟩
      rw [ending?_define, if_neg (by simp [hnew])]
    | @redefine name e _ _ v h hold =>
      obtain ⟨depth, h⟩ := h
      refine ⟨depth, ending?_bind_iff.2 (.inr ⟨v, t, h, ending?_map_iff.2 ⟨.error _, ?_, rfl⟩⟩)⟩
      rw [ending?_define, if_pos hold]
    | @print e _ _ v h =>
      obtain ⟨depth, h⟩ := h
      exact ⟨depth, ending?_bind_iff.2 (.inr ⟨v, t, h, rfl⟩)⟩
    | @fail _ _ _ err h =>
      obtain ⟨depth, h⟩ := h
      cases st <;> exact ⟨depth, ending?_bind_iff.2 (.inl ⟨err, h, rfl⟩)⟩
  · -- What the function did is read off the ending of its two parts.
    rintro ⟨depth, h⟩
    cases st with
    | define name e =>
      rcases ending?_bind_iff.1 h with ⟨err, he, rfl⟩ | ⟨v, u, he, hreturn⟩
      · exact .fail ⟨depth, he⟩
      · obtain ⟨r', hdefine, rfl⟩ := ending?_map_iff.1 hreturn
        rw [ending?_define] at hdefine
        split at hdefine
        · next hold =>
          cases hdefine
          exact .redefine ⟨depth, he⟩ hold
        · next hnew =>
          cases hdefine
          exact .define ⟨depth, he⟩ (Bool.eq_false_iff.2 hnew)
    | print e =>
      rcases ending?_bind_iff.1 h with ⟨err, he, rfl⟩ | ⟨v, u, he, hread⟩
      · exact .fail ⟨depth, he⟩
      · cases hread
        exact .print ⟨depth, he⟩

/-! ## Execution by the rules -/

/-- More depth changes no answer of an execution. -/
theorem executeAll_approximates (host : Host) {depth depth' : Nat} (h : depth ≤ depth')
    (scope : FrameId) (ss : List Statement) :
    (executeAll host depth scope ss).Approximates (executeAll host depth' scope ss) := by
  induction ss with
  | nil => exact .refl _
  | cons st rest ih =>
    rw [executeAll_cons, executeAll_cons]
    exact (executeOne_approximates host h scope st).bind fun effect => ih.bind fun lines => .refl _

/-- No statements print nothing and change nothing. -/
theorem executes_nil_iff {r : Except RuntimeError (List String)} :
    Executes host scope [] s r t ↔ r = .ok [] ∧ t = s := by
  constructor
  · rintro ⟨depth, h⟩
    cases h
    exact ⟨rfl, rfl⟩
  · rintro ⟨rfl, rfl⟩
    exact ⟨0, rfl⟩

/-- The first statement fails, or it succeeds and the others go on. -/
theorem executes_cons_iff {st : Statement} {rest : List Statement}
    {r : Except RuntimeError (List String)} :
    Executes host scope (st :: rest) s r t ↔
      (∃ err, Performs host scope st s (.error err) t ∧ r = .error err)
      ∨ ∃ effect u r', Performs host scope st s (.ok effect) u ∧ Executes host scope rest u r' t
        ∧ r = r'.map (effect.line?.toList ++ ·) := by
  simp only [Executes, performs_iff, executeAll_cons]
  constructor
  · rintro ⟨depth, h⟩
    rcases ending?_bind_iff.1 h with ⟨err, hone, rfl⟩ | ⟨effect, u, hone, hreturn⟩
    · exact .inl ⟨err, ⟨depth, hone⟩, rfl⟩
    · obtain ⟨r', hall, rfl⟩ := ending?_map_iff.1 hreturn
      exact .inr ⟨effect, u, r', ⟨depth, hone⟩, ⟨depth, hall⟩, rfl⟩
  · rintro (⟨err, ⟨depth, h⟩, rfl⟩ | ⟨effect, u, r', ⟨depth, h⟩, ⟨depth', hrest⟩, rfl⟩)
    · exact ⟨depth, ending?_bind_iff.2 (.inl ⟨err, h, rfl⟩)⟩
    · -- The larger of the two depths suffices for both parts.
      have hone := (executeOne_approximates host (Nat.le_max_left depth depth') scope st).ending? h
      have hall :=
        (executeAll_approximates host (Nat.le_max_right depth depth') scope rest).ending? hrest
      exact ⟨max depth depth',
        ending?_bind_iff.2 (.inr ⟨effect, u, hone, ending?_map_iff.2 ⟨r', hall, rfl⟩⟩)⟩

/-- Statements succeed exactly if all of them complete, and the lines are those they print. -/
theorem executes_ok_iff {ss : List Statement} {lines : List String} :
    Executes host scope ss s (.ok lines) t ↔
      ∃ effects, Completes host scope ss s effects t ∧ lines = effects.filterMap Effect.line? := by
  induction ss generalizing s lines with
  | nil =>
    rw [executes_nil_iff]
    constructor
    · rintro ⟨h, rfl⟩
      cases h
      exact ⟨[], .nil t, rfl⟩
    · rintro ⟨effects, h, rfl⟩
      cases h
      exact ⟨rfl, rfl⟩
  | cons st rest ih =>
    rw [executes_cons_iff]
    constructor
    · rintro (⟨err, -, h⟩ | ⟨effect, u, r', h, hrest, hr⟩)
      · nomatch h
      · cases r' with
        | error err => nomatch hr
        | ok lines' =>
          cases hr
          obtain ⟨effects, hcompletes, rfl⟩ := ih.1 hrest
          refine ⟨effect :: effects, .cons h hcompletes, ?_⟩
          cases effect <;> rfl
    · rintro ⟨effects, h, rfl⟩
      cases h with
      | @cons _ _ effect effects _ u _ h hrest =>
        refine .inr ⟨effect, u, _, h, ih.2 ⟨effects, hrest, rfl⟩, ?_⟩
        cases effect <;> rfl

/-- Statements fail exactly if one of them does after those before it have completed. -/
theorem executes_error_iff {ss : List Statement} {err : RuntimeError} :
    Executes host scope ss s (.error err) t ↔
      ∃ done st rest effects u, ss = done ++ st :: rest ∧ Completes host scope done s effects u
        ∧ Performs host scope st u (.error err) t := by
  induction ss generalizing s with
  | nil =>
    rw [executes_nil_iff]
    constructor
    · rintro ⟨h, -⟩
      nomatch h
    · rintro ⟨done, st, rest, effects, u, h, -⟩
      simp at h
  | cons st rest ih =>
    rw [executes_cons_iff]
    constructor
    · -- The first statement fails, or the failing one is further on and the first is put before
      -- those done.
      rintro (⟨err', h, hr⟩ | ⟨effect, u, r', h, hrest, hr⟩)
      · cases hr
        exact ⟨[], st, rest, [], s, rfl, .nil s, h⟩
      · cases r' with
        | ok lines => nomatch hr
        | error err' =>
          cases hr
          obtain ⟨done, st', rest', effects, u', rfl, hdone, hfail⟩ := ih.1 hrest
          exact ⟨st :: done, st', rest', effect :: effects, u', rfl, .cons h hdone, hfail⟩
    · rintro ⟨done, st', rest', effects, u, heq, hdone, hfail⟩
      cases hdone with
      | nil =>
        cases heq
        exact .inl ⟨err, hfail, rfl⟩
      | @cons _ done effect effects _ u' _ h hdone =>
        cases heq
        exact .inr ⟨effect, u', .error err, h,
          ih.2 ⟨done, st', rest', effects, u, rfl, hdone, hfail⟩, rfl⟩

/-- An execution goes to the end, or up to the first statement that fails. -/
theorem executes_iff {ss : List Statement} {r : Except RuntimeError (List String)} :
    Executes host scope ss s r t ↔
      (∃ effects, Completes host scope ss s effects t ∧ r = .ok (effects.filterMap Effect.line?))
      ∨ ∃ done st rest effects u err, ss = done ++ st :: rest
        ∧ Completes host scope done s effects u ∧ Performs host scope st u (.error err) t
        ∧ r = .error err := by
  constructor
  · intro h
    cases r with
    | ok lines =>
      obtain ⟨effects, hdone, rfl⟩ := executes_ok_iff.1 h
      exact .inl ⟨effects, hdone, rfl⟩
    | error err =>
      obtain ⟨done, st, rest, effects, u, hss, hdone, hfail⟩ := executes_error_iff.1 h
      exact .inr ⟨done, st, rest, effects, u, err, hss, hdone, hfail, rfl⟩
  · rintro (⟨effects, hdone, rfl⟩ | ⟨done, st, rest, effects, u, err, hss, hdone, hfail, rfl⟩)
    · exact executes_ok_iff.2 ⟨effects, hdone, rfl⟩
    · exact executes_error_iff.2 ⟨done, st, rest, effects, u, hss, hdone, hfail⟩

/-- Two groups of statements are executed one after the other, the second one if the first one
succeeds. -/
theorem executes_append_iff {ss ss' : List Statement} {r : Except RuntimeError (List String)} :
    Executes host scope (ss ++ ss') s r t ↔
      (∃ err, Executes host scope ss s (.error err) t ∧ r = .error err)
      ∨ ∃ lines u r', Executes host scope ss s (.ok lines) u ∧ Executes host scope ss' u r' t
        ∧ r = r'.map (lines ++ ·) := by
  -- The induction is on the first list; the lines of its first statement stand before all others.
  induction ss generalizing s r with
  | nil =>
    simp only [List.nil_append, executes_nil_iff]
    constructor
    · intro h
      refine .inr ⟨[], s, r, ⟨rfl, rfl⟩, h, ?_⟩
      cases r <;> rfl
    · rintro (⟨err, ⟨h, -⟩, -⟩ | ⟨lines, u, r', ⟨hlines, rfl⟩, h, rfl⟩)
      · nomatch h
      · cases hlines
        cases r' <;> exact h
  | cons st rest ih =>
    simp only [List.cons_append, executes_cons_iff, ih]
    constructor
    · rintro (⟨err, h, rfl⟩ | ⟨effect, u, r', h, hrest, rfl⟩)
      · exact .inl ⟨err, .inl ⟨err, h, rfl⟩, rfl⟩
      · rcases hrest with ⟨err, hrest, rfl⟩ | ⟨lines, u', r', hrest, h', rfl⟩
        · exact .inl ⟨err, .inr ⟨effect, u, .error err, h, hrest, rfl⟩, rfl⟩
        · refine .inr ⟨effect.line?.toList ++ lines, u', r',
            .inr ⟨effect, u, .ok lines, h, hrest, rfl⟩, h', ?_⟩
          cases r' <;> simp [Except.map]
    · rintro (⟨err, ⟨_, h, ⟨⟩⟩ | ⟨effect, u, r', h, hrest, hr⟩, rfl⟩
        | ⟨lines, u', r', ⟨_, -, ⟨⟩⟩ | ⟨effect, u, r'', h, hrest, hr⟩, h', rfl⟩)
      · exact .inl ⟨err, h, rfl⟩
      · cases r' with
        | ok lines => nomatch hr
        | error err' =>
          cases hr
          exact .inr ⟨effect, u, .error err, h, .inl ⟨err, hrest, rfl⟩, rfl⟩
      · cases r'' with
        | error err => nomatch hr
        | ok lines' =>
          cases hr
          refine .inr ⟨effect, u, _, h, .inr ⟨lines', u', r', hrest, h', rfl⟩, ?_⟩
          cases r' <;> simp [Except.map]

end ObjectLisp
