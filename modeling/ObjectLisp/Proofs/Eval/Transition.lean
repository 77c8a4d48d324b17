import ObjectLisp.Proofs.Eval.Execution
import ObjectLisp.Proofs.Eval.Growth
import ObjectLisp.Proofs.Store.Binding

/-!
# What an execution leaves

Evaluation only adds to the store, and a definition binds a name that its frame did not bind. So
statements that complete leave the frame they were executed in with one new binding for each
definition among them (`Completes.binds`), and a statement that fails leaves it as it was
(`Performs.binds_of_error`). A definition of a name that was bound before never succeeds.
-/

namespace ObjectLisp

variable {host : Host} {scope : FrameId} {s t u : Store}

/-! ## Single statements -/

/-- The name that a statement defines, if it is a definition. -/
def Statement.defined? : Statement → Option String
  | define name _ => some name
  | print _ => none

/-- Whether a statement prints a line. -/
def Statement.isPrint : Statement → Bool
  | define _ _ => false
  | print _ => true

theorem EvaluatesTo.extends {e : Expr} {r : Except RuntimeError Value}
    (h : EvaluatesTo host scope e s r t) : s.Extends t := by
  obtain ⟨depth, h⟩ := h
  refine grows_evaluate host depth scope e s t ?_
  cases hout : evaluate host depth scope e s <;> rw [hout] at h <;> cases h <;> rfl

/-- A statement that succeeds makes the binding that its effect says. -/
theorem Performs.binds {st : Statement} {effect : Effect}
    (h : Performs host scope st s (.ok effect) t) (hscope : scope.index < s.frames.size) :
    Store.Binds scope effect.binding?.toList s t := by
  cases h with
  | define h hnew =>
    have hgrows := h.extends.binds hscope
    exact hgrows.trans (Store.binds_assign (hgrows.scope_lt hscope) hnew _)
  | print h => exact h.extends.binds hscope

/-- A statement that fails binds nothing. -/
theorem Performs.binds_of_error {st : Statement} {err : RuntimeError}
    (h : Performs host scope st s (.error err) t) (hscope : scope.index < s.frames.size) :
    Store.Binds scope [] s t := by
  cases h with
  | redefine h => exact h.extends.binds hscope
  | fail h => exact h.extends.binds hscope

/-- A definition binds its name, and nothing else does. -/
theorem Performs.name_binding? {st : Statement} {effect : Effect}
    (h : Performs host scope st s (.ok effect) t) :
    effect.binding?.map (·.1) = st.defined? := by
  cases h <;> rfl

/-- A print statement prints a line, and nothing else does. -/
theorem Performs.isSome_line? {st : Statement} {effect : Effect}
    (h : Performs host scope st s (.ok effect) t) : effect.line?.isSome = st.isPrint := by
  cases h <;> rfl

/-- A line that is printed is the text of the value of its expression. -/
theorem Performs.exists_printed {st : Statement} {effect : Effect} {line : String}
    (h : Performs host scope st s (.ok effect) t) (hline : effect.line? = some line) :
    ∃ e v, st = .print e ∧ EvaluatesTo host scope e s (.ok v) t ∧ t.text v = line := by
  cases h with
  | define => nomatch hline
  | print h =>
    cases hline
    exact ⟨_, _, rfl, h, rfl⟩

/-! ## Printed values -/

/-- The line at the index `n` of what statements print is the text of the value `v`: the one that
the expression of a print statement has, after the statements before it have printed `n` lines. -/
def PrintsAt (host : Host) (scope : FrameId) (ss : List Statement) (s : Store) (n : Nat) (v : Value)
    (line : String) : Prop :=
  ∃ before e after lines u u', ss = before ++ .print e :: after
    ∧ Executes host scope before s (.ok lines) u ∧ lines.length = n
    ∧ EvaluatesTo host scope e u (.ok v) u' ∧ u'.text v = line

/-- After one more statement in front, the lines stand further back. -/
theorem PrintsAt.cons {st : Statement} {rest : List Statement} {effect : Effect} {n : Nat}
    {v : Value} {line : String} (hst : Performs host scope st s (.ok effect) u)
    (h : PrintsAt host scope rest u n v line) :
    PrintsAt host scope (st :: rest) s (effect.line?.toList.length + n) v line := by
  obtain ⟨before, e, after, lines, w, w', rfl, hbefore, rfl, he, hline⟩ := h
  refine ⟨st :: before, e, after, effect.line?.toList ++ lines, w, w', rfl, ?_,
    List.length_append, he, hline⟩
  exact executes_cons_iff.2 (.inr ⟨effect, u, .ok lines, hst, hbefore, rfl⟩)

/-! ## Statements that complete -/

namespace Completes

variable {ss : List Statement} {effects : List Effect}

/-- Statements that complete make the bindings of their effects. -/
theorem binds (h : Completes host scope ss s effects t) (hscope : scope.index < s.frames.size) :
    Store.Binds scope (effects.filterMap Effect.binding?) s t := by
  induction h with
  | nil s => exact .refl s hscope
  | @cons st rest effect effects s u t h _ ih =>
    have hfirst := h.binds hscope
    have hboth := hfirst.trans (ih (hfirst.scope_lt hscope))
    rw [List.filterMap_cons]
    cases heffect : effect.binding? <;> rw [heffect] at hboth <;> exact hboth

/-- There is one binding for each definition. -/
theorem map_fst_bindings (h : Completes host scope ss s effects t) :
    (effects.filterMap Effect.binding?).map (·.1) = ss.filterMap Statement.defined? := by
  induction h with
  | nil => rfl
  | @cons st rest effect effects _ _ _ h _ ih =>
    rw [List.filterMap_cons, List.filterMap_cons, ← h.name_binding?]
    cases effect.binding? with
    | none => exact ih
    | some b => exact congrArg (b.1 :: ·) ih

/-- There is one line for each print statement. -/
theorem length_lines (h : Completes host scope ss s effects t) :
    (effects.filterMap Effect.line?).length = ss.countP Statement.isPrint := by
  induction h with
  | nil => rfl
  | @cons st rest effect effects _ _ _ h _ ih =>
    rw [List.filterMap_cons, List.countP_cons, ← h.isSome_line?, ← ih]
    cases effect.line? <;> rfl

/-- The statements before one of them complete, then this one succeeds, and then the others. -/
theorem exists_of_append {before after : List Statement} {st : Statement}
    (h : Completes host scope (before ++ st :: after) s effects t) :
    ∃ effects₁ effect effects₂ u u', effects = effects₁ ++ effect :: effects₂
      ∧ Completes host scope before s effects₁ u ∧ Performs host scope st u (.ok effect) u'
      ∧ Completes host scope after u' effects₂ t := by
  induction before generalizing s effects with
  | nil =>
    cases h with
    | @cons _ _ effect effects _ u _ h hs => exact ⟨[], effect, effects, s, u, rfl, .nil s, h, hs⟩
  | cons st' before ih =>
    cases h with
    | @cons _ _ effect' _ _ _ _ h hs =>
      obtain ⟨effects₁, effect, effects₂, u, u', rfl, hbefore, hst, hafter⟩ := ih hs
      exact ⟨effect' :: effects₁, effect, effects₂, u, u', rfl, .cons h hbefore, hst, hafter⟩

/-- A definition binds its name to the value that its expression has after the statements before
it. -/
theorem exists_value (h : Completes host scope ss s effects t)
    {before after : List Statement} {name : String} {e : Expr}
    (hss : ss = before ++ .define name e :: after) :
    ∃ lines u v u', Executes host scope before s (.ok lines) u
      ∧ EvaluatesTo host scope e u (.ok v) u' ∧ (name, v) ∈ effects.filterMap Effect.binding? := by
  subst hss
  obtain ⟨effects₁, effect, effects₂, u, u', rfl, hbefore, hst, -⟩ := h.exists_of_append
  cases hst with
  | @define _ _ _ w v he hnew =>
    refine ⟨_, u, v, w, executes_ok_iff.2 ⟨effects₁, hbefore, rfl⟩, he, ?_⟩
    exact List.mem_filterMap.2 ⟨.bound name v, by simp, rfl⟩

end Completes

/-! ## Executions -/

/-- The bindings of statements that complete are all there are, also after another one fails. -/
theorem Completes.binds_of_error {ss : List Statement} {effects : List Effect}
    (h : Completes host scope ss s effects u) {st : Statement} {err : RuntimeError}
    (hfail : Performs host scope st u (.error err) t) (hscope : scope.index < s.frames.size) :
    Store.Binds scope (effects.filterMap Effect.binding?) s t := by
  have hbinds := h.binds hscope
  have hboth := hbinds.trans (hfail.binds_of_error (hbinds.scope_lt hscope))
  rwa [List.append_nil] at hboth

/-- An execution adds bindings to its frame, if anything. -/
theorem Executes.exists_binds {ss : List Statement} {r : Except RuntimeError (List String)}
    (h : Executes host scope ss s r t) (hscope : scope.index < s.frames.size) :
    ∃ bs, Store.Binds scope bs s t := by
  rcases executes_iff.1 h with ⟨effects, hdone, -⟩ | ⟨_, _, _, effects, _, _, -, hdone, hfail, -⟩
  · exact ⟨_, hdone.binds hscope⟩
  · exact ⟨_, hdone.binds_of_error hfail hscope⟩

/-- Statements do not succeed if one of them defines a name that was bound before. -/
theorem not_executes_ok_of_bound {ss : List Statement} {name : String} {e : Expr}
    (hscope : scope.index < s.frames.size)
    (hbound : (s.frame scope).bindings.contains name = true) (hmem : .define name e ∈ ss)
    (lines : List String) : ¬ Executes host scope ss s (.ok lines) t := by
  intro h
  obtain ⟨effects, hdone, -⟩ := executes_ok_iff.1 h
  have hname : name ∈ (effects.filterMap Effect.binding?).map (·.1) := by
    rw [hdone.map_fst_bindings]
    exact List.mem_filterMap.2 ⟨_, hmem, rfl⟩
  have hnone := (hdone.binds hscope).new name hname
  simp [Dict.contains, hnone] at hbound

end ObjectLisp
