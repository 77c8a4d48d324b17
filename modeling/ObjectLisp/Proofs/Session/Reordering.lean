import ObjectLisp.Proofs.Eval.Validity
import ObjectLisp.Proofs.Session
import ObjectLisp.Proofs.Simulation.Identity
import ObjectLisp.Proofs.Simulation.Parallel

/-!
# Functions in any order

A block of definitions of functions, under new and different names, may be executed in any order:
whatever program comes after it prints the same lines or fails with the same error. A closure keeps
the frame it was made in, and not what the frame bound at the time, so it sees the functions that
are defined after it.

The order decides only where the closures stand in the store. Two neighbours that are exchanged
leave parallel stores (`Store.parallel_addFunction`), in which programs agree, and every order is
reached by exchanges.
-/

namespace ObjectLisp

variable {host : Host} {scope : FrameId} {s : Store} {i : Interpreter}

/-! ## Functions -/

/-- Bind a name in a frame to a new closure of the frame. -/
def Store.addFunction (s : Store) (scope : FrameId) (name : String) (params : List String)
    (body : Expr) : Store :=
  (s.addClosure ⟨params, body, scope⟩).2.assign scope name (.closure ⟨s.closures.size⟩)

namespace Store

variable (name : String) (params : List String) (body : Expr)

/-- A function adds no frame. -/
theorem size_frames_addFunction :
    (s.addFunction scope name params body).frames.size = s.frames.size := by
  rw [addFunction, assign, setFrame, Array.size_setIfInBounds]
  rfl

/-- It adds its closure at the end. -/
theorem closures_addFunction :
    (s.addFunction scope name params body).closures = s.closures.push ⟨params, body, scope⟩ := rfl

/-- In its own frame, its name is bound to that closure. -/
theorem frame_addFunction (hscope : scope.index < s.frames.size) :
    (s.addFunction scope name params body).frame scope
      = { s.frame scope with
          bindings := (s.frame scope).bindings.insert name (.closure ⟨s.closures.size⟩) } :=
  frame_assign (s := (s.addClosure ⟨params, body, scope⟩).2) hscope name _

/-- The name of the function is bound to the new closure, and the others as before. -/
theorem get?_addFunction (hscope : scope.index < s.frames.size) (x : String) :
    ((s.addFunction scope name params body).frame scope).bindings.get? x
      = if x = name then some (.closure ⟨s.closures.size⟩)
        else (s.frame scope).bindings.get? x := by
  rw [frame_addFunction _ _ _ hscope, Dict.get?_insert]

/-- Every other frame is left alone. -/
theorem frame_addFunction_of_ne {id : FrameId} (h : id ≠ scope) :
    (s.addFunction scope name params body).frame id = s.frame id :=
  frame_assign_of_ne h name _

variable {allowed : Primitive → Prop}

variable {body} in
/-- A function with a valid body keeps the store well-formed. -/
theorem WellFormed.addFunction (h : s.WellFormed allowed) (hscope : scope.index < s.frames.size)
    (hbody : body.IsValid allowed s) :
    (s.addFunction scope name params body).WellFormed allowed := by
  refine (h.addClosure ⟨hscope, hbody⟩).assign scope name ?_
  show s.closures.size < (s.closures.push _).size
  rw [Array.size_push]
  exact Nat.lt_succ_self _

/-- What was valid is valid after a function was added. -/
theorem isValid_addFunction {v : Value} (hv : v.IsValid allowed s) :
    v.IsValid allowed (s.addFunction scope name params body) := by
  have hv' := hv.mono (s.extends_addClosure ⟨params, body, scope⟩)
  cases v <;> exact hv'

end Store

/-- The definition of a function adds it, as soon as there is any depth. -/
theorem executeAll_function (host : Host) (depth : Nat) {name : String} (params : List String)
    (body : Expr) (rest : List Statement)
    (hnew : (s.frame scope).bindings.contains name = false) :
    executeAll host (depth + 1) scope (.define name (.lambda params body) :: rest) s
      = executeAll host (depth + 1) scope rest (s.addFunction scope name params body) := by
  have hdefine : (s.addClosure ⟨params, body, scope⟩).2.define scope name
      (.closure ⟨s.closures.size⟩) = (.ok (), s.addFunction scope name params body) :=
    if_neg (Bool.eq_false_iff.1 hnew)
  change Action.andThen (Action.perform (·.define scope name (.closure ⟨s.closures.size⟩)))
    (fun _ => executeAll host (depth + 1) scope rest) (s.addClosure ⟨params, body, scope⟩).2 = _
  simp only [Action.andThen, Action.perform, hdefine]

/-! ## Two functions -/

/-- Two definitions under different names add both functions. -/
theorem executeAll_twoFunctions (host : Host) (depth : Nat) {name name' : String}
    (params : List String) (body : Expr) (params' : List String) (body' : Expr)
    (rest : List Statement) (hscope : scope.index < s.frames.size) (hne : name ≠ name')
    (hnew : (s.frame scope).bindings.contains name = false)
    (hnew' : (s.frame scope).bindings.contains name' = false) :
    executeAll host (depth + 1) scope
        (.define name (.lambda params body) :: .define name' (.lambda params' body') :: rest) s
      = executeAll host (depth + 1) scope rest
        ((s.addFunction scope name params body).addFunction scope name' params' body') := by
  have hnew₁ : ((s.addFunction scope name params body).frame scope).bindings.contains name'
      = false := by
    rwa [Dict.contains, Store.get?_addFunction _ _ _ hscope, if_neg hne.symm]
  rw [executeAll_function host depth params body _ hnew,
    executeAll_function host depth params' body' _ hnew₁]

/-- The world of a store, and two new closures that stand in each other's place. -/
def World.exchange (s : Store) : World :=
  ((World.identity s).addClosure ⟨s.closures.size⟩ ⟨s.closures.size + 1⟩).addClosure
    ⟨s.closures.size + 1⟩ ⟨s.closures.size⟩

/-- The exchange of the two new closures extends the identity. -/
theorem World.identity_le_exchange (s : Store) : (World.identity s).Le (World.exchange s) :=
  (World.le_addClosure _ _ _).trans (World.le_addClosure _ _ _)

/-- A value that was there before is related to itself. -/
theorem Value.IsValid.relates_exchange {v : Value}
    (h : v.IsValid (Primitive.IsUniform host) s) : (World.exchange s).Relates host v v :=
  h.relates.mono (World.identity_le_exchange s)

/-- Two functions that are added in either order leave parallel stores. -/
theorem Store.parallel_addFunction (hs : s.WellFormed (Primitive.IsUniform host))
    (hscope : scope.index < s.frames.size) {name name' : String} (hne : name ≠ name')
    (params params' : List String) {body body' : Expr}
    (hbody : body.IsValid (Primitive.IsUniform host) s)
    (hbody' : body'.IsValid (Primitive.IsUniform host) s) :
    Parallel host (World.exchange s)
      ((s.addFunction scope name params body).addFunction scope name' params' body')
      ((s.addFunction scope name' params' body').addFunction scope name params body) where
  size := by simp only [size_frames_addFunction]
  frames id := by
    by_cases hid : id = scope
    · subst hid
      have hfirst : id.index < (s.addFunction id name params body).frames.size := by
        rwa [size_frames_addFunction]
      have hsecond : id.index < (s.addFunction id name' params' body').frames.size := by
        rwa [size_frames_addFunction]
      -- In the frame itself, each of the two names is bound to the closure with its own parameters
      -- and body, which has one number here and the other there.
      refine ⟨fun x => ?_, ?_⟩
      · rw [get?_addFunction _ _ _ hfirst, get?_addFunction _ _ _ hscope,
          get?_addFunction _ _ _ hsecond, get?_addFunction _ _ _ hscope, closures_addFunction,
          closures_addFunction, Array.size_push, Array.size_push]
        by_cases hx : x = name
        · rw [if_neg (hx.trans_ne hne), if_pos hx, if_pos hx]
          exact .some (.closure (.inl (.inr ⟨rfl, rfl⟩)))
        · rw [if_neg hx, if_neg hx]
          split
          · exact .some (.closure (.inr ⟨rfl, rfl⟩))
          · exact optionRel_self fun v hv => (hs.isValid_frame id x v hv).relates_exchange
      · rw [frame_addFunction _ _ _ hfirst, frame_addFunction _ _ _ hscope,
          frame_addFunction _ _ _ hsecond, frame_addFunction _ _ _ hscope]
    · simp only [frame_addFunction_of_ne _ _ _ hid]
      exact ⟨fun x => optionRel_self fun v hv => (hs.isValid_frame id x v hv).relates_exchange, rfl⟩
  closures i j hij := by
    simp only [closures_addFunction, size_frames_addFunction]
    -- An old closure, the one defined second, the one defined first.
    rcases hij with (⟨rfl, hi⟩ | ⟨rfl, rfl⟩) | ⟨rfl, rfl⟩
    · have hc := Array.getElem?_eq_getElem hi
      have hvalid := hs.closures _ (Array.getElem_mem hi)
      exact ⟨_, getElem?_push_of_some (getElem?_push_of_some hc),
        getElem?_push_of_some (getElem?_push_of_some hc), hvalid.scope,
        fun v hv => (hvalid.body v hv).relates_exchange⟩
    · refine ⟨⟨params, body, scope⟩, getElem?_push_of_some Array.getElem?_push_size, ?_, hscope,
        fun v hv => (hbody v hv).relates_exchange⟩
      rw [Array.getElem?_push, if_pos (Array.size_push _).symm]
    · refine ⟨⟨params', body', scope⟩, ?_, getElem?_push_of_some Array.getElem?_push_size, hscope,
        fun v hv => (hbody' v hv).relates_exchange⟩
      rw [Array.getElem?_push, if_pos (Array.size_push _).symm]
  objects x y hxy := by
    obtain ⟨a, b, ha, hb, hab⟩ := hs.sim.objects x y hxy
    exact ⟨a, b, ha, hb, hab.mono (World.identity_le_exchange s)⟩
  oneToOne := hs.sim.oneToOne

/-! ## Blocks -/

/-- The statements define functions in a scope, under different names that are new there. -/
structure DefinesFunctions (block : List Statement) (scope : FrameId) (s : Store) : Prop where
  functions : ∀ st ∈ block, ∃ name params body, st = .define name (.lambda params body)
  nodup : (block.filterMap Statement.defined?).Nodup
  new : ∀ name ∈ block.filterMap Statement.defined?,
    (s.frame scope).bindings.contains name = false

namespace DefinesFunctions

variable {block block' : List Statement}

/-- A block defines functions in any order. -/
theorem perm (h : DefinesFunctions block scope s) (hperm : block.Perm block') :
    DefinesFunctions block' scope s where
  functions st hst := h.functions st (hperm.mem_iff.2 hst)
  nodup := (hperm.filterMap _).nodup_iff.1 h.nodup
  new name hname := h.new name ((hperm.filterMap _).mem_iff.2 hname)

/-- The first function is added, and then the others define functions. -/
theorem exists_function {st : Statement} (h : DefinesFunctions (st :: block) scope s)
    (hscope : scope.index < s.frames.size) :
    ∃ name params body, st = .define name (.lambda params body)
      ∧ (s.frame scope).bindings.contains name = false
      ∧ DefinesFunctions block scope (s.addFunction scope name params body) := by
  obtain ⟨name, params, body, rfl⟩ := h.functions st List.mem_cons_self
  obtain ⟨hname, hnodup⟩ := List.nodup_cons.1 h.nodup
  refine ⟨name, params, body, rfl, h.new name List.mem_cons_self,
    fun st hst => h.functions st (List.mem_cons_of_mem _ hst), hnodup, fun x hx => ?_⟩
  have hne : x ≠ name := fun heq => hname (heq ▸ hx)
  have hnew := h.new x (List.mem_cons_of_mem _ hx)
  rw [Dict.contains, Store.get?_addFunction _ _ _ hscope, if_neg hne]
  exact hnew

end DefinesFunctions

/-- How a finished action ended. -/
def Outcome.answer? {α : Type} (o : Outcome α) : Option (Except RuntimeError α) :=
  o.ending?.map (·.1)

/-- Related outcomes with equal results have the same answer. -/
theorem OutcomesRelated.answer?_eq {α : Type} {S : World → Store → Store → Prop} {W : World}
    {x y : Outcome α} (h : OutcomesRelated S W (fun _ => Eq) x y) : x.answer? = y.answer? := by
  cases h with
  | value _ _ heq => rw [heq]; rfl
  | error | outOfFuel => rfl

/-- Whatever follows a block of functions ends alike for every order of the block, within every
depth. -/
theorem answer?_executeAll_perm (host : Host) (depth : Nat) {block block' : List Statement}
    (hperm : block.Perm block') (hs : s.WellFormed (Primitive.IsUniform host))
    (hscope : scope.index < s.frames.size) (h : DefinesFunctions block scope s)
    {q : List Statement}
    (hvalid : ∀ st ∈ block ++ q, st.expr.IsValid (Primitive.IsUniform host) s) :
    (executeAll host depth scope (block ++ q) s).answer?
      = (executeAll host depth scope (block' ++ q) s).answer? := by
  -- A permutation is made of exchanges of neighbours, and those are the case with an argument.
  induction hperm generalizing s with
  | nil => rfl
  | @cons st block block' _ ih =>
    obtain ⟨name, params, body, rfl, hnew, hblock⟩ := h.exists_function hscope
    obtain ⟨hbody, hvalid⟩ := List.forall_mem_cons.1 hvalid
    cases depth with
    | zero => rfl
    | succ depth =>
      rw [List.cons_append, List.cons_append, executeAll_function host depth params body _ hnew,
        executeAll_function host depth params body _ hnew]
      refine ih (hs.addFunction name params hscope hbody) ?_ hblock fun st hst v hv => ?_
      · rwa [Store.size_frames_addFunction]
      · exact Store.isValid_addFunction name params body (hvalid st hst v hv)
  | swap st st' block =>
    obtain ⟨name, params, body, rfl⟩ := h.functions st (by simp)
    obtain ⟨name', params', body', rfl⟩ := h.functions st' (by simp)
    have hne : name' ≠ name := by
      rintro rfl
      exact (List.nodup_cons.1 h.nodup).1 List.mem_cons_self
    have hnew : (s.frame scope).bindings.contains name = false :=
      h.new name (List.mem_cons_of_mem _ List.mem_cons_self)
    have hnew' : (s.frame scope).bindings.contains name' = false := h.new name' List.mem_cons_self
    obtain ⟨hlambda', hvalid⟩ := List.forall_mem_cons.1 hvalid
    obtain ⟨hlambda, hvalid⟩ := List.forall_mem_cons.1 hvalid
    have hbody : body.IsValid (Primitive.IsUniform host) s := hlambda
    have hbody' : body'.IsValid (Primitive.IsUniform host) s := hlambda'
    cases depth with
    | zero => rfl
    | succ depth =>
      simp only [List.cons_append]
      rw [executeAll_twoFunctions host depth params' body' params body _ hscope hne hnew' hnew,
        executeAll_twoFunctions host depth params body params' body' _ hscope hne.symm hnew hnew']
      -- The two stores differ in the numbers of the two closures only, and no answer shows these.
      have hparallel := Store.parallel_addFunction hs hscope hne params' params hbody' hbody
      refine (hparallel.executeAll_agrees ?_ (fun st hst v hv => ?_) (depth + 1)).answer?_eq
      · rwa [Store.size_frames_addFunction, Store.size_frames_addFunction]
      · exact (hvalid st hst v hv).relates_exchange
  | @trans block₁ block₂ block₃ h₁₂ _ ih₁ ih₂ =>
    refine (ih₁ hs hscope h hvalid).trans (ih₂ hs hscope (h.perm h₁₂) fun st hst => ?_)
    exact hvalid st ((h₁₂.append_right q).mem_iff.2 hst)

/-! ## Answers -/

/-- Statements are answered as their execution ends, within some depth. -/
theorem exists_answers_iff {ss : List Statement} {a : Except Error (List String)} :
    (∃ j, Answers host i (.execute ⟨ss⟩) a j)
      ↔ ∃ r depth, (executeAll host depth i.root ss i.store).answer? = some r
        ∧ a = r.mapError .runtime := by
  constructor
  · rintro ⟨j, h⟩
    obtain ⟨r, ⟨depth, hending⟩, ha, -⟩ := (answers_iff_of_ok (q := .execute ⟨ss⟩) rfl).1 h
    exact ⟨r, depth, by rw [Outcome.answer?, hending]; rfl, ha⟩
  · rintro ⟨r, depth, hanswer, ha⟩
    obtain ⟨⟨_, t⟩, hending, rfl⟩ := Option.map_eq_some_iff.1 hanswer
    exact ⟨⟨t, i.root⟩, (answers_iff_of_ok (q := .execute ⟨ss⟩) rfl).2
      ⟨_, ⟨depth, hending⟩, ha, rfl⟩⟩

/-- A block that defines functions under new and different names may be put in any order: with
whatever statements follow, it is answered with the same lines or the same error, if it is answered
at all. -/
theorem answers_iff_of_perm (hi : i.store.WellFormed (Primitive.IsUniform host)) (hroot : i.HasRoot)
    {block block' q : List Statement} (hblock : DefinesFunctions block i.root i.store)
    (hperm : block.Perm block')
    (hvalid : ∀ st ∈ block ++ q, st.expr.IsValid (Primitive.IsUniform host) i.store)
    (a : Except Error (List String)) :
    (∃ j, Answers host i (.execute ⟨block ++ q⟩) a j)
      ↔ ∃ j, Answers host i (.execute ⟨block' ++ q⟩) a j := by
  rw [exists_answers_iff, exists_answers_iff]
  refine exists_congr fun r => exists_congr fun depth => ?_
  rw [answer?_executeAll_perm host depth hperm hi hroot hblock hvalid]

/-- Two functions that call each other. -/
def pingPong : List Statement :=
  [.define "ping" (.lambda ["b"]
      (.conditional (.var "b") (.application (.var "pong") [.bool false]) (.keyword "done"))),
    .define "pong" (.lambda ["b"] (.application (.var "ping") [.var "b"]))]

/-- The host that hands back an argument treats related stores alike. -/
theorem Primitive.isUniform_echo (p : Primitive) : p.IsUniform .echo := by
  cases p with
  | host name id => exact fun _ _ _ _ _ => rfl
  | arithmetic | isZero | makeObject | field | animal | dog | cat => trivial

/-- The two definitions define two functions with different names. -/
theorem definesFunctions_pingPong :
    DefinesFunctions pingPong Interpreter.standard.root Interpreter.standard.store where
  functions := by simp [pingPong]
  nodup := by decide
  new := by decide +kernel

/-- The function that is called first may be defined first or last. -/
theorem answers_pingPong :
    (∃ j, Answers .echo .standard
      (.execute ⟨pingPong ++ [.print (.application (.var "ping") [.bool true])]⟩) (.ok [":done"]) j)
    ∧ ∃ j, Answers .echo .standard
      (.execute ⟨pingPong.reverse ++ [.print (.application (.var "ping") [.bool true])]⟩)
      (.ok [":done"]) j := by
  have hrun : (executeAll .echo 6 ⟨0⟩
      (pingPong ++ [.print (.application (.var "ping") [.bool true])])
      Interpreter.standard.store).answer? = some (.ok [":done"]) := by
    decide +kernel
  have hfirst : ∃ j, Answers .echo .standard
      (.execute ⟨pingPong ++ [.print (.application (.var "ping") [.bool true])]⟩)
      (.ok [":done"]) j :=
    exists_answers_iff.2 ⟨_, 6, hrun, rfl⟩
  have hwellFormed : Interpreter.standard.store.WellFormed (Primitive.IsUniform .echo) :=
    Interpreter.wellFormed_ofRegistry fun e _ => e.2.isUniform_echo
  refine ⟨hfirst, (answers_iff_of_perm hwellFormed (Interpreter.hasRoot_ofRegistry _)
    definesFunctions_pingPong pingPong.reverse_perm.symm ?_ _).1 hfirst⟩
  intro st hst v hv
  simp only [pingPong, List.cons_append, List.nil_append, List.mem_cons, List.not_mem_nil,
    or_false] at hst
  rcases hst with rfl | rfl | rfl <;> nomatch hv

end ObjectLisp
