import ObjectLisp.Interpreter
import ObjectLisp.Proofs.Eval.Growth
import ObjectLisp.Proofs.Eval.Steps
import ObjectLisp.Proofs.Store.WellFormed

/-!
# Programs keep the store well-formed

An evaluation that begins in a well-formed store leaves a well-formed store and has a valid value.
It makes no primitives, so it stays within those that are allowed, whichever these are. Hence every
store that an interpreter reaches by running programs is well-formed.
-/

namespace ObjectLisp

open ObjectLisp.Action

variable {α β : Type} {allowed : Primitive → Prop} {s : Store}

/-! ## Outcomes -/

/-- A finished action leaves a well-formed store, and a value that has the property `Q` there. -/
def Outcome.IsValid (allowed : Primitive → Prop) (Q : Store → α → Prop) : Outcome α → Prop
  | .value a s => s.WellFormed allowed ∧ Q s a
  | .error _ s => s.WellFormed allowed
  | .outOfFuel => True

/-- Sequences of actions that leave valid outcomes leave valid outcomes. -/
theorem Outcome.IsValid.bind {Q : Store → α → Prop} {Q' : Store → β → Prop} {x : Action α}
    {f : α → Action β} (h : (x s).IsValid allowed Q)
    (hf : ∀ a s', x s = .value a s' → s'.WellFormed allowed → Q s' a →
      (f a s').IsValid allowed Q') : ((x >>= f) s).IsValid allowed Q' := by
  show (andThen x f s).IsValid allowed Q'
  unfold andThen
  cases hx : x s with
  | value a s' =>
    rw [hx] at h
    exact hf a s' hx h.1 h.2
  | error e s' =>
    rw [hx] at h
    exact h
  | outOfFuel => exact trivial

/-- An action that changes the store is valid if the store it leaves is well-formed. -/
theorem isValid_perform {f : Store → Except RuntimeError α × Store}
    (h : (f s).2.WellFormed allowed) :
    (perform f s).IsValid allowed fun s' _ => s' = (f s).2 := by
  unfold perform
  generalize f s = r at h ⊢
  obtain ⟨_ | a, s'⟩ := r
  · exact h
  · exact ⟨h, rfl⟩

namespace Store.WellFormed

variable {Q : Store → α → Prop}

/-- What is read off a well-formed store leaves it well-formed. -/
theorem readOrFail (h : s.WellFormed allowed) {f : Store → Except RuntimeError α}
    (hf : ∀ a, f s = .ok a → Q s a) : (Action.readOrFail f s).IsValid allowed Q := by
  unfold Action.readOrFail
  cases hfs : f s with
  | ok a => exact ⟨h, hf a hfs⟩
  | error e => exact h

/-- The check of an argument leaves the store as it is. -/
theorem argument (h : s.WellFormed allowed) (p : Primitive) (i : Nat) (expected : ArgumentType)
    (content : Value → Option α) (v : Value) :
    (p.argument i expected content v s).IsValid allowed fun _ _ => True := by
  unfold Primitive.argument
  cases content v with
  | some a => exact ⟨h, trivial⟩
  | none => exact h

/-! ## Objects -/

/-- A new object is a valid value. -/
theorem new (h : s.WellFormed allowed) {o : Object} (ho : o.IsValid allowed s) :
    (Primitive.new o s).IsValid allowed fun s v => v.IsValid allowed s := by
  refine ⟨h.addObject ho, ?_⟩
  show s.objects.size < (s.objects.push o).size
  rw [Array.size_push]
  exact Nat.lt_succ_self _

/-- A search finds valid values only. -/
theorem isValid_search (h : s.WellFormed allowed) {name : String} {visited : List ObjectId}
    {id : ObjectId} {v : Value} (hv : s.search name visited id = .found v) :
    v.IsValid allowed s := by
  fun_induction s.search name visited id with
  | case1 => nomatch hv
  | case2 visited id hcycle hid o w hget =>
    cases hv
    exact (h.objects o (Array.getElem_mem hid)).fields name v hget
  | case3 => nomatch hv
  | case4 visited id hcycle hid o hget next hnext ih => exact ih hv
  | case5 => nomatch hv

/-- A field has a valid value. -/
theorem isValid_lookup (h : s.WellFormed allowed) {id : ObjectId} {name : String} {v : Value}
    (hv : s.lookup id name = .ok v) : v.IsValid allowed s := by
  unfold lookup at hv
  split at hv
  · next hsearch =>
    cases hv
    exact h.isValid_search hsearch
  · nomatch hv
  · nomatch hv

end Store.WellFormed

/-- Valid fields may be set in a valid object. -/
theorem Object.IsValid.insert {o : Object} (h : o.IsValid allowed s) (name : String) {v : Value}
    (hv : v.IsValid allowed s) : (o.insert name v).IsValid allowed s := by
  refine ⟨fun x w hw => ?_, h.prototype⟩
  rw [Object.insert, Dict.get?_insert] at hw
  split at hw
  · cases hw
    exact hv
  · exact h.fields x w hw

/-- The empty object is valid. -/
theorem Object.isValid_empty : Object.empty.IsValid allowed s :=
  ⟨fun _ _ hv => (nomatch hv), fun _ hid => (nomatch hid)⟩

/-- An object filled with valid values is valid. -/
theorem Object.IsValid.insertPairs {text : Value → String} {vs : List Value}
    (hvs : ∀ v ∈ vs, v.IsValid allowed s) {o o' : Object} (ho : o.IsValid allowed s)
    (h : Object.insertPairs text vs o = .ok o') : o'.IsValid allowed s := by
  fun_induction Object.insertPairs text vs o with
  | case1 => nomatch h
  | case2 key v rest o name hname ih =>
    obtain ⟨-, hvs⟩ := List.forall_mem_cons.1 hvs
    obtain ⟨hv, hrest⟩ := List.forall_mem_cons.1 hvs
    exact ih hrest (ho.insert name hv) h
  | case3 =>
    cases h
    exact ho

/-- An object made of valid values is valid. -/
theorem Object.isValid_ofPairs {text : Value → String} {vs : List Value}
    (hvs : ∀ v ∈ vs, v.IsValid allowed s) {o : Object} (h : Object.ofPairs text vs = .ok o) :
    o.IsValid allowed s := by
  unfold Object.ofPairs at h
  split at h
  · nomatch h
  · exact Object.isValid_empty.insertPairs hvs h

/-- An object made of valid literals is valid. -/
theorem Object.isValid_ofLiteral {text : Value → String} {vs : List Value}
    (hvs : ∀ v ∈ vs, v.IsValid allowed s) {o : Object} (h : Object.ofLiteral text vs = .ok o) :
    o.IsValid allowed s := by
  unfold Object.ofLiteral at h
  split at h
  · nomatch h
  · split at h
    · nomatch h
    · exact Object.isValid_ofPairs hvs h

/-- An object with valid fields is valid. -/
theorem Object.isValid_ofFields {fields : List (String × Value)}
    (h : ∀ e ∈ fields, e.2.IsValid allowed s) : (Object.ofFields fields).IsValid allowed s :=
  ⟨fun _ _ hv => h _ (Dict.mem_of_get?_ofList hv), fun _ hid => (nomatch hid)⟩

/-! ## Calls -/

/-- A plain animal is valid. -/
theorem Primitive.isValid_plainAnimal (furry : Bool) :
    (plainAnimal furry).IsValid allowed s :=
  Object.isValid_ofFields (by simp [Value.IsValid])

namespace Store.WellFormed

/-- A new animal is a valid value. -/
theorem newKindOfAnimal (h : s.WellFormed allowed) {fields : List (String × Value)}
    (hfields : ∀ s : Store, ∀ e ∈ fields, e.2.IsValid allowed s) (furry : Bool) :
    (Primitive.newKindOfAnimal fields furry s).IsValid allowed fun s v => v.IsValid allowed s := by
  have hparent := h.addObject (Primitive.isValid_plainAnimal furry)
  refine hparent.new ⟨(Object.isValid_ofFields (hfields _)).fields, fun id hid => ?_⟩
  cases hid
  show s.objects.size < (s.objects.push _).size
  rw [Array.size_push]
  exact Nat.lt_succ_self _

/-- The dogs and cats make valid objects. -/
theorem kindOfAnimal (h : s.WellFormed allowed) (p : Primitive)
    {fields : Float → List (String × Value)}
    (hfields : ∀ x, ∀ s : Store, ∀ e ∈ fields x, e.2.IsValid allowed s) (a b : Value) :
    (p.kindOfAnimal fields a b s).IsValid allowed fun s v => v.IsValid allowed s := by
  refine (h.argument p _ _ _ a).bind fun x s₁ _ h₁ _ => ?_
  refine (h₁.argument p _ _ _ b).bind fun furry s₂ _ h₂ _ => ?_
  exact h₂.newKindOfAnimal (hfields x) furry

/-- The host hands back one of the arguments or null. -/
theorem handBack (h : s.WellFormed allowed) (host : Host) (name : String) (id : HostId)
    {args : List Value} (hargs : ∀ v ∈ args, v.IsValid allowed s) :
    (Primitive.handBack host name id args s).IsValid allowed fun s v => v.IsValid allowed s := by
  refine ⟨h, ?_⟩
  dsimp only
  cases hchoice : (host s name id args).bind (args[·]?) with
  | none => exact trivial
  | some v =>
    obtain ⟨i, -, hi⟩ := Option.bind_eq_some_iff.1 hchoice
    exact hargs v (List.mem_of_getElem? hi)

/-- A call of a primitive with valid arguments keeps the store well-formed. -/
theorem call (h : s.WellFormed allowed) (host : Host) (p : Primitive) {args : List Value}
    (hargs : ∀ v ∈ args, v.IsValid allowed s) :
    (p.call host args s).IsValid allowed fun s v => v.IsValid allowed s := by
  unfold Primitive.call
  split
  · refine (h.argument _ _ _ _ _).bind fun x s₁ _ h₁ _ => ?_
    refine (h₁.argument _ _ _ _ _).bind fun y s₂ _ h₂ _ => ?_
    exact ⟨h₂, trivial⟩
  · exact (h.argument _ _ _ _ _).bind fun x s₁ _ h₁ _ => ⟨h₁, trivial⟩
  · refine (h.argument _ _ _ _ _).bind fun id s₁ _ h₁ _ => ?_
    refine (h₁.argument _ _ _ _ _).bind fun name s₂ _ h₂ _ => ?_
    exact h₂.readOrFail fun v hv => h₂.isValid_lookup hv
  · exact (h.argument _ _ _ _ _).bind fun furry s₁ _ h₁ _ =>
      h₁.new (Primitive.isValid_plainAnimal furry)
  · exact h.kindOfAnimal _ (by simp [Value.IsValid]) _ _
  · exact h.kindOfAnimal _ (by simp [Value.IsValid]) _ _
  · exact (h.readOrFail fun o ho => Object.isValid_ofLiteral hargs ho).bind
      fun o s₁ _ h₁ ho => h₁.new ho
  · exact h.handBack host _ _ hargs
  · exact h

end Store.WellFormed

/-! ## Evaluation -/

/-- In well-formed stores, valid expressions in scopes of the store leave valid outcomes. -/
def RunsValid (allowed : Primitive → Prop) (run : FrameId → Expr → Action Value) : Prop :=
  ∀ ⦃s : Store⦄ ⦃scope : FrameId⦄ ⦃e : Expr⦄, s.WellFormed allowed →
    scope.index < s.frames.size → e.IsValid allowed s →
    (run scope e s).IsValid allowed fun s v => v.IsValid allowed s

namespace RunsValid

variable {run : FrameId → Expr → Action Value}

/-- Applying a valid value to valid arguments keeps the store well-formed. -/
theorem applyWith (hrun : RunsValid allowed run) (host : Host) (h : s.WellFormed allowed)
    {callee : Value} (hcallee : callee.IsValid allowed s) {args : List Value}
    (hargs : ∀ v ∈ args, v.IsValid allowed s) :
    (ObjectLisp.applyWith host run callee args s).IsValid allowed
      fun s v => v.IsValid allowed s := by
  cases callee with
  | closure id =>
    rw [applyWith_closure]
    split
    · exact h
    · cases hd : Store.bindParameters (s.closure id).params args with
      | error e => exact h
      | ok d =>
        -- The frame of the call holds the arguments and lies in the scope of the closure.
        have hframe := Frame.isValid_of_bindParameters hd hargs (some (s.closure id).scope)
        have hbody := (h.isValid_closure hcallee).body
        exact hrun (h.addFrame hframe) (by simp) (hbody.mono (s.extends_addFrame _))
  | primitive p => exact h.call host p hargs
  | object id =>
    exact (h.readOrFail fun o ho => Object.isValid_ofPairs hargs ho).bind
      fun o s₁ _ h₁ ho => h₁.new ho
  | number | bool | null | keyword => exact h

/-- Valid expressions that are evaluated one after another have valid values. -/
theorem evaluateAll (hrun : RunsValid allowed run) (hgrows : ∀ scope e, (run scope e).Grows)
    {scope : FrameId} (h : s.WellFormed allowed) (hscope : scope.index < s.frames.size)
    {es : List Expr} (hes : ∀ e ∈ es, e.IsValid allowed s) :
    (ObjectLisp.evaluateAll (run scope) es s).IsValid allowed
      fun s vs => ∀ v ∈ vs, v.IsValid allowed s := by
  induction es generalizing s with
  | nil => exact ⟨h, by simp⟩
  | cons e rest ih =>
    obtain ⟨he, hrest⟩ := List.forall_mem_cons.1 hes
    refine (hrun h hscope he).bind fun v s₁ hv h₁ hvalid => ?_
    have hext := (hgrows scope e).extends_of_value hv
    refine (ih h₁ (hext.frame_lt hscope) fun e he => (hrest e he).mono hext).bind
      fun vs s₂ hvs h₂ hvalid₂ => ⟨h₂, List.forall_mem_cons.2 ⟨?_, hvalid₂⟩⟩
    exact hvalid.mono ((grows_evaluateAll (hgrows scope) rest).extends_of_value hvs)

end RunsValid

/-- Evaluation keeps the store well-formed and gives valid values, within every depth. -/
theorem runsValid_evaluate (allowed : Primitive → Prop) (host : Host) (depth : Nat) :
    RunsValid allowed (evaluate host depth) := by
  induction depth with
  | zero =>
    intro s scope e _ _ _
    exact trivial
  | succ depth ih =>
    intro s scope e h hscope he
    cases e with
    | var name =>
      rw [evaluate_var]
      cases hget : s.get? scope name with
      | some v => exact ⟨h, h.isValid_get? hget⟩
      | none => exact h
    | number | bool | null | keyword => exact ⟨h, trivial⟩
    | value v => exact ⟨h, he v List.mem_cons_self⟩
    | lambda params body =>
      refine ⟨h.addClosure ⟨hscope, he⟩, ?_⟩
      -- The new closure is the last one.
      show s.closures.size < (s.closures.push _).size
      rw [Array.size_push]
      exact Nat.lt_succ_self _
    | application head args =>
      -- What is still to be evaluated stays valid, since the store only gets longer on the way.
      have hhead : head.IsValid allowed s := fun v hv => he v (List.mem_append_left _ hv)
      refine (ih h hscope hhead).bind fun callee s₁ hcallee h₁ hvalid => ?_
      have hext := (grows_evaluate host depth scope head).extends_of_value hcallee
      have hargs : ∀ a ∈ args, a.IsValid allowed s₁ := fun a ha v hv =>
        (he v (List.mem_append_right _ (Expr.mem_allValues.2 ⟨a, ha, hv⟩))).mono hext
      refine (ih.evaluateAll (grows_evaluate host depth) h₁ (hext.frame_lt hscope) hargs).bind
        fun vs s₂ hvs h₂ hvalid₂ => ih.applyWith host h₂ (hvalid.mono ?_) hvalid₂
      exact (grows_evaluateAll (grows_evaluate host depth scope) args).extends_of_value hvs
    | conditional guard consequent alternative =>
      have hguard : guard.IsValid allowed s := fun v hv =>
        he v (List.mem_append_left _ (List.mem_append_left _ hv))
      refine (ih h hscope hguard).bind fun v s₁ hv h₁ hvalid => ?_
      have hext := (grows_evaluate host depth scope guard).extends_of_value hv
      cases v with
      | bool b =>
        cases b with
        | true =>
          exact ih h₁ (hext.frame_lt hscope) fun v hv =>
            (he v (List.mem_append_left _ (List.mem_append_right _ hv))).mono hext
        | false =>
          exact ih h₁ (hext.frame_lt hscope) fun v hv =>
            (he v (List.mem_append_right _ hv)).mono hext
      | number | null | keyword | closure | primitive | object => exact h₁

/-! ## Programs -/

/-- The values that a statement holds are valid. -/
def Statement.IsValid (allowed : Primitive → Prop) (s : Store) : Statement → Prop
  | .define _ e => e.IsValid allowed s
  | .print e => e.IsValid allowed s

/-- A valid statement stays valid in a longer store. -/
theorem Statement.IsValid.mono {t : Store} {st : Statement} (h : st.IsValid allowed s)
    (hst : s.Extends t) : st.IsValid allowed t := by
  cases st with
  | define name e => exact Expr.IsValid.mono h hst
  | print e => exact Expr.IsValid.mono h hst

/-- A definition keeps the store well-formed. -/
theorem Store.WellFormed.define (h : s.WellFormed allowed) (scope : FrameId) (name : String)
    {v : Value} (hv : v.IsValid allowed s) : (s.define scope name v).2.WellFormed allowed := by
  unfold Store.define
  split
  · exact h
  · exact h.assign scope name hv

/-- A definition adds and removes no frame. -/
theorem Store.size_frames_define (s : Store) (scope : FrameId) (name : String) (v : Value) :
    (s.define scope name v).2.frames.size = s.frames.size := by
  unfold Store.define
  split
  · rfl
  · exact Array.size_setIfInBounds

/-- A definition leaves closures and objects alone, so what was valid is valid after it. -/
theorem Value.IsValid.define {w : Value} (h : w.IsValid allowed s) (scope : FrameId)
    (name : String) (v : Value) : w.IsValid allowed (s.define scope name v).2 := by
  unfold Store.define
  split
  · exact h
  · cases w <;> exact h

/-- It stays valid after a definition. -/
theorem Statement.IsValid.define {st : Statement} (h : st.IsValid allowed s) (scope : FrameId)
    (name : String) (v : Value) : st.IsValid allowed (s.define scope name v).2 := by
  cases st with
  | define name' e => exact fun w hw => (h w hw).define scope name v
  | print e => exact fun w hw => (h w hw).define scope name v

/-- Statements that hold valid values keep the store well-formed. -/
theorem Store.WellFormed.executeAll (host : Host) (depth : Nat) {scope : FrameId}
    {statements : List Statement} (h : s.WellFormed allowed) (hscope : scope.index < s.frames.size)
    (hvalid : ∀ st ∈ statements, st.IsValid allowed s) :
    (ObjectLisp.executeAll host depth scope statements s).IsValid allowed fun _ _ => True := by
  induction statements generalizing s with
  | nil => exact ⟨h, trivial⟩
  | cons st rest ih =>
    obtain ⟨hst, hrest⟩ := List.forall_mem_cons.1 hvalid
    cases st with
    | define name e =>
      refine (runsValid_evaluate allowed host depth h hscope hst).bind fun v s₁ hv h₁ hv₁ => ?_
      have hext := (grows_evaluate host depth scope e).extends_of_value hv
      -- A definition changes a frame, so the store after it is no extension of the one before.
      refine (isValid_perform (h₁.define scope name hv₁)).bind fun _ s₂ _ h₂ hs₂ => ?_
      subst hs₂
      refine ih h₂ ?_ fun st hst => ((hrest st hst).mono hext).define scope name v
      rw [s₁.size_frames_define scope name v]
      exact hext.frame_lt hscope
    | print e =>
      refine (runsValid_evaluate allowed host depth h hscope hst).bind fun v s₁ hv h₁ _ => ?_
      have hext := (grows_evaluate host depth scope e).extends_of_value hv
      exact (ih h₁ (hext.frame_lt hscope) fun st hst => (hrest st hst).mono hext).bind
        fun lines s₂ _ h₂ _ => ⟨h₂, trivial⟩

/-! ## Interpreters -/

/-- A new interpreter has a well-formed store, if all primitives of its registry are allowed. -/
theorem Interpreter.wellFormed_ofRegistry {r : Registry}
    (hr : ∀ e ∈ r.primitives.entries, allowed e.2) :
    (Interpreter.ofRegistry r).store.WellFormed allowed := by
  refine Store.WellFormed.empty.addFrame (Frame.isValid_ofList ?_ none)
  intro e he
  obtain ⟨p, hp, rfl⟩ := List.mem_map.1 he
  exact hr p hp

end ObjectLisp
