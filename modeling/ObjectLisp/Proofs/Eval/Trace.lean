import Mathlib.Logic.Relation
import ObjectLisp.Proofs.Eval.Transition
import ObjectLisp.Proofs.Eval.Validity

/-!
# All that a program can do

`Store.Step` lists what a program can do to the store, and `Store.Raises` the errors that it can end
with, with the values they speak about. Whatever is evaluated in a well-formed store, the store it
leaves is reached by such steps, and an error is one of these in that store (`runsTraced_evaluate`).
So a property of all stores that programs reach is one that each step keeps.
-/

namespace ObjectLisp

open ObjectLisp.Action

variable {α β : Type} {allowed : Primitive → Prop} {host : Host} {s t u : Store}

/-! ## Steps and errors -/

/-- One thing that a program can do to the store. The frame around a new frame is there already. A
new object has no prototype, unless it is a kind of animal, and then a new animal is its
prototype. -/
inductive Store.Step (allowed : Primitive → Prop) (s : Store) : Store → Prop
  | frame {f : Frame} (houter : ∀ outer, f.outer = some outer → outer.index < s.frames.size) :
      Step allowed s (s.addFrame f).2
  | closure (c : Closure) : Step allowed s (s.addClosure c).2
  | object {o : Object} (ho : o.IsValid allowed s) (hprototype : o.prototype = none) :
      Step allowed s (s.addObject o).2
  | kindOfAnimal (furry : Bool) {fields : List (String × Value)}
      (hfields : ∀ e ∈ fields, e.2.IsValid allowed s) :
      Step allowed s ((s.addObject (Primitive.plainAnimal furry)).2.addObject
        { Object.ofFields fields with prototype := some ⟨s.objects.size⟩ }).2
  | binding (id : FrameId) (name : String) (v : Value) : Step allowed s (s.assign id name v)

/-- Any number of steps. -/
abbrev Store.Steps (allowed : Primitive → Prop) (s t : Store) : Prop :=
  Relation.ReflTransGen (Store.Step allowed) s t

namespace Store

/-- No step takes away a closure or changes one. -/
theorem Step.closures (h : s.Step allowed t) {i : Nat} {c : Closure}
    (hc : s.closures[i]? = some c) : t.closures[i]? = some c := by
  cases h with
  | closure => exact getElem?_push_of_some hc
  | frame | object | kindOfAnimal | binding => exact hc

/-- No step takes away an object or changes one. -/
theorem Step.objects (h : s.Step allowed t) {i : Nat} {o : Object}
    (ho : s.objects[i]? = some o) : t.objects[i]? = some o := by
  cases h with
  | object => exact getElem?_push_of_some ho
  | kindOfAnimal => exact getElem?_push_of_some (getElem?_push_of_some ho)
  | frame | closure | binding => exact ho

/-- A closure stays what it was through any number of steps. -/
theorem Steps.closures (h : s.Steps allowed t) {i : Nat} {c : Closure}
    (hc : s.closures[i]? = some c) : t.closures[i]? = some c := by
  induction h with
  | refl => exact hc
  | tail _ hstep ih => exact hstep.closures ih

/-- So does an object. -/
theorem Steps.objects (h : s.Steps allowed t) {i : Nat} {o : Object}
    (ho : s.objects[i]? = some o) : t.objects[i]? = some o := by
  induction h with
  | refl => exact ho
  | tail _ hstep ih => exact hstep.objects ih

end Store

/-- The errors that a program can end with. -/
inductive Store.Raises (allowed : Primitive → Prop) (s : Store) : RuntimeError → Prop
  | unboundVariable (name : String) : Raises allowed s (.unboundVariable name)
  | redefinition (name : String) : Raises allowed s (.redefinition name)
  | oddArguments (count : Nat) : Raises allowed s (.oddArguments count)
  | closureArity {id : ClosureId} (hid : id.index < s.closures.size) (expected got : Nat) :
      Raises allowed s (.arityMismatch (s.text (.closure id)) expected got)
  | primitiveArity {p : Primitive} {expected : Nat} (hp : p.arity = some expected) (got : Nat) :
      Raises allowed s (.arityMismatch p.name expected got)
  | argumentType {v : Value} (hv : v.IsValid allowed s) (p : Primitive) (position : Nat)
      (expected : ArgumentType) :
      Raises allowed s (.argumentType p.name position expected (s.text v))
  | guardType {v : Value} (hv : v.IsValid allowed s) : Raises allowed s (.guardType (s.text v))
  | notCallable {v : Value} (hv : v.IsValid allowed s) : Raises allowed s (.notCallable (s.text v))
  | keyType {v : Value} (hv : v.IsValid allowed s) : Raises allowed s (.keyType (s.text v))
  | disallowedField {v : Value} (hv : v.IsValid allowed s) (key : String) :
      Raises allowed s (.disallowedField key (s.text v))
  | fieldNotFound {id : ObjectId} (hid : id.index < s.objects.size) (key : String) :
      Raises allowed s (.fieldNotFound key (s.text (.object id)))
  | prototypeCycle {id : ObjectId} {key : String} (h : s.search key [] id = .cyclic) :
      Raises allowed s (.prototypeCycle key)

/-! ## Outcomes -/

/-- A finished action leaves a store that is reached by steps, and its error is one that a program
can end with. -/
def Outcome.Traced (allowed : Primitive → Prop) (s : Store) : Outcome α → Prop
  | .value _ t => s.Steps allowed t
  | .error e t => s.Steps allowed t ∧ t.Raises allowed e
  | .outOfFuel => True

/-- Steps before an action. -/
theorem Outcome.Traced.after {o : Outcome α} (h : o.Traced allowed t) (hst : s.Steps allowed t) :
    o.Traced allowed s := by
  cases o with
  | value a u => exact Relation.ReflTransGen.trans hst h
  | error e u => exact ⟨hst.trans h.1, h.2⟩
  | outOfFuel => exact trivial

/-- The steps of a sequence are those of its parts. -/
theorem Outcome.Traced.bind {x : Action α} {f : α → Action β} (h : (x s).Traced allowed s)
    (hf : ∀ a t, x s = .value a t → (f a t).Traced allowed t) :
    ((x >>= f) s).Traced allowed s := by
  show (andThen x f s).Traced allowed s
  unfold andThen
  cases hx : x s with
  | value a t =>
    rw [hx] at h
    exact (hf a t hx).after h
  | error e t =>
    rw [hx] at h
    exact h
  | outOfFuel => exact trivial

/-- A failure is traced if the store can raise its error. -/
theorem traced_fail {e : RuntimeError} (h : s.Raises allowed e) :
    (Outcome.error e s : Outcome α).Traced allowed s := ⟨.refl, h⟩

/-- Reading without a change is traced if the store can raise whatever error it ends in. -/
theorem traced_readOrFail {f : Store → Except RuntimeError α}
    (h : ∀ e, f s = .error e → s.Raises allowed e) : (readOrFail f s).Traced allowed s := by
  unfold readOrFail
  cases hf : f s with
  | ok a => exact .refl
  | error e => exact ⟨.refl, h e hf⟩

/-- Reading hands its answer back and leaves the store as it was. -/
theorem readOrFail_eq_value {f : Store → Except RuntimeError α} {a : α}
    (h : readOrFail f s = .value a t) : f s = .ok a ∧ t = s := by
  unfold readOrFail at h
  cases hf : f s with
  | ok b =>
    rw [hf] at h
    cases h
    exact ⟨rfl, rfl⟩
  | error e =>
    rw [hf] at h
    nomatch h

/-! ## Objects -/

/-- A field that is not found is missing, or the search for it does not end. -/
theorem Store.raises_of_lookup {id : ObjectId} (hid : id.index < s.objects.size) {name : String}
    {e : RuntimeError} (h : s.lookup id name = .error e) : s.Raises allowed e := by
  unfold Store.lookup at h
  split at h
  · nomatch h
  · cases h
    exact .fieldNotFound hid name
  · next hsearch =>
    cases h
    exact .prototypeCycle hsearch

/-- A key that is no keyword is an error that the store can raise. -/
theorem Store.raises_of_keyName {key : Value} (hkey : key.IsValid allowed s) {e : RuntimeError}
    (h : Object.keyName s.text key = .error e) : s.Raises allowed e := by
  unfold Object.keyName at h
  split at h
  · nomatch h
  · cases h
    exact .keyType hkey

/-- An object that cannot be made has a key or a value that is refused. -/
theorem Store.raises_of_insertPairs {vs : List Value} (hvs : ∀ v ∈ vs, v.IsValid allowed s)
    {o : Object} {e : RuntimeError} (h : Object.insertPairs s.text vs o = .error e) :
    s.Raises allowed e := by
  fun_induction Object.insertPairs s.text vs o with
  | case1 key v rest o e' hname =>
    cases h
    exact Store.raises_of_keyName (hvs key List.mem_cons_self) hname
  | case2 key v rest o name hname ih =>
    exact ih (fun w hw => hvs w (List.mem_cons_of_mem _ (List.mem_cons_of_mem _ hw))) h
  | case3 => cases h

/-- So is any error of the fields of an object from valid values. -/
theorem Store.raises_of_ofPairs {vs : List Value} (hvs : ∀ v ∈ vs, v.IsValid allowed s)
    {e : RuntimeError} (h : Object.ofPairs s.text vs = .error e) : s.Raises allowed e := by
  unfold Object.ofPairs at h
  split at h
  · cases h
    exact .oddArguments _
  · exact Store.raises_of_insertPairs hvs h

/-- So is any error of the check of literals. -/
theorem Store.raises_of_checkPairs {vs : List Value} (hvs : ∀ v ∈ vs, v.IsValid allowed s)
    {e : RuntimeError} (h : Object.checkPairs s.text vs = .error e) : s.Raises allowed e := by
  fun_induction Object.checkPairs s.text vs with
  | case1 key v rest e' hname =>
    cases h
    exact Store.raises_of_keyName (hvs key List.mem_cons_self) hname
  | case2 key v rest name hname hfield ih =>
    exact ih (fun w hw => hvs w (List.mem_cons_of_mem _ (List.mem_cons_of_mem _ hw))) h
  | case3 key v rest name hname hfield =>
    cases h
    exact .disallowedField (hvs v (List.mem_cons_of_mem _ List.mem_cons_self)) name
  | case4 => nomatch h

/-- So is any error of the fields of an object from literals. -/
theorem Store.raises_of_ofLiteral {vs : List Value} (hvs : ∀ v ∈ vs, v.IsValid allowed s)
    {e : RuntimeError} (h : Object.ofLiteral s.text vs = .error e) : s.Raises allowed e := by
  unfold Object.ofLiteral at h
  split at h
  · cases h
    exact .oddArguments _
  · split at h
    · next e' hcheck =>
      cases h
      exact Store.raises_of_checkPairs hvs hcheck
    · exact Store.raises_of_ofPairs hvs h

/-- An object made of values has no prototype. -/
theorem Object.prototype_of_insertPairs {text : Value → String} {vs : List Value} {o o' : Object}
    (h : Object.insertPairs text vs o = .ok o') : o'.prototype = o.prototype := by
  fun_induction Object.insertPairs text vs o with
  | case1 => cases h
  | case2 key v rest o name hname ih => exact ih h
  | case3 =>
    cases h
    rfl

/-- An object made of fields has no prototype. -/
theorem Object.prototype_of_ofPairs {text : Value → String} {vs : List Value} {o : Object}
    (h : Object.ofPairs text vs = .ok o) : o.prototype = none := by
  unfold Object.ofPairs at h
  split at h
  · nomatch h
  · exact Object.prototype_of_insertPairs h

/-- Nor has one made of literals. -/
theorem Object.prototype_of_ofLiteral {text : Value → String} {vs : List Value} {o : Object}
    (h : Object.ofLiteral text vs = .ok o) : o.prototype = none := by
  unfold Object.ofLiteral at h
  split at h
  · nomatch h
  · split at h
    · nomatch h
    · exact Object.prototype_of_ofPairs h

/-! ## Primitives -/

/-- A value with an object identity is that object. -/
theorem Value.eq_object_of_object? {v : Value} {id : ObjectId} (h : v.object? = some id) :
    v = .object id := by
  cases v <;> cases h
  rfl

namespace Primitive

/-- The check of an argument speaks about the argument. -/
theorem traced_argument {v : Value} (hv : v.IsValid allowed s) (p : Primitive) (position : Nat)
    (expected : ArgumentType) (content : Value → Option α) :
    (p.argument position expected content v s).Traced allowed s := by
  unfold argument
  cases content v with
  | some a => exact .refl
  | none => exact traced_fail (.argumentType hv p position expected)

/-- An argument that is accepted has the content asked for, and the store stays as it was. -/
theorem argument_eq_value {v : Value} {p : Primitive} {position : Nat} {expected : ArgumentType}
    {content : Value → Option α} {a : α}
    (h : p.argument position expected content v s = .value a t) : content v = some a ∧ t = s := by
  unfold argument at h
  cases hcontent : content v with
  | some b =>
    rw [hcontent] at h
    cases h
    exact ⟨rfl, rfl⟩
  | none =>
    rw [hcontent] at h
    nomatch h

/-- A new object without a prototype is one step. -/
theorem traced_new {o : Object} (ho : o.IsValid allowed s) (hprototype : o.prototype = none) :
    (new o s).Traced allowed s :=
  .single (.object ho hprototype)

/-- The dogs and cats are traced: the plain animal comes first, the object on top of it second. -/
theorem traced_kindOfAnimal {a b : Value} (ha : a.IsValid allowed s) (hb : b.IsValid allowed s)
    (p : Primitive) {fields : Float → List (String × Value)}
    (hfields : ∀ x, ∀ e ∈ fields x, e.2.IsValid allowed s) :
    (p.kindOfAnimal fields a b s).Traced allowed s := by
  refine (traced_argument ha p _ _ _).bind fun x t hx => ?_
  obtain ⟨-, rfl⟩ := argument_eq_value hx
  refine (traced_argument hb p _ _ _).bind fun furry u hfurry => ?_
  obtain ⟨-, rfl⟩ := argument_eq_value hfurry
  exact .single (.kindOfAnimal furry (hfields x))

/-- A call of a primitive with valid arguments is traced. -/
theorem traced_call (host : Host) (p : Primitive) {args : List Value}
    (hargs : ∀ v ∈ args, v.IsValid allowed s) : (p.call host args s).Traced allowed s := by
  unfold call
  split
  · obtain ⟨ha, hargs⟩ := List.forall_mem_cons.1 hargs
    refine (traced_argument ha _ _ _ _).bind fun x t hx => ?_
    obtain ⟨-, rfl⟩ := argument_eq_value hx
    exact (traced_argument (hargs _ List.mem_cons_self) _ _ _ _).bind fun y u _ => .refl
  · exact (traced_argument (hargs _ List.mem_cons_self) _ _ _ _).bind fun x t _ => .refl
  · obtain ⟨ha, hargs⟩ := List.forall_mem_cons.1 hargs
    refine (traced_argument ha _ _ _ _).bind fun id t hid => ?_
    obtain ⟨hobject, rfl⟩ := argument_eq_value hid
    refine (traced_argument (hargs _ List.mem_cons_self) _ _ _ _).bind fun name u hname => ?_
    obtain ⟨-, rfl⟩ := argument_eq_value hname
    rw [Value.eq_object_of_object? hobject] at ha
    exact traced_readOrFail fun e he => Store.raises_of_lookup ha he
  · refine (traced_argument (hargs _ List.mem_cons_self) _ _ _ _).bind fun furry t _ => ?_
    exact traced_new (isValid_plainAnimal furry) rfl
  · obtain ⟨ha, hargs⟩ := List.forall_mem_cons.1 hargs
    exact traced_kindOfAnimal ha (hargs _ List.mem_cons_self) _ (by simp [Value.IsValid])
  · obtain ⟨ha, hargs⟩ := List.forall_mem_cons.1 hargs
    exact traced_kindOfAnimal ha (hargs _ List.mem_cons_self) _ (by simp [Value.IsValid])
  · refine (traced_readOrFail fun e he => Store.raises_of_ofLiteral hargs he).bind fun o t ho => ?_
    obtain ⟨ho, rfl⟩ := readOrFail_eq_value ho
    exact traced_new (Object.isValid_ofLiteral hargs ho) (Object.prototype_of_ofLiteral ho)
  · exact .refl
  · next hmake hhost _ _ _ _ _ _ =>
    -- Object literals and host functions take any number of arguments; all others have an arity.
    cases p with
    | makeObject => exact (hmake rfl).elim
    | host name id => exact (hhost name id rfl).elim
    | arithmetic | isZero | field | animal | dog | cat => exact traced_fail (.primitiveArity rfl _)

end Primitive

/-! ## Evaluation -/

/-- Binding several names fails only because a name is bound twice. -/
theorem Store.eq_redefinition_of_bindAll {l : List (String × Value)} {d : Dict Value}
    {e : RuntimeError} (h : bindAll l d = .error e) : ∃ name, e = .redefinition name := by
  induction l generalizing d with
  | nil => nomatch h
  | cons b rest ih =>
    obtain ⟨name, v⟩ := b
    rw [bindAll] at h
    split at h
    · cases h
      exact ⟨name, rfl⟩
    · exact ih h

/-- As many parameters as values can be bound unless a name comes twice. -/
theorem Store.eq_redefinition_of_bindParameters {params : List String} {values : List Value}
    (hlength : params.length = values.length) {e : RuntimeError}
    (h : bindParameters params values = .error e) : ∃ name, e = .redefinition name := by
  rw [bindParameters, if_neg (not_not_intro hlength)] at h
  exact eq_redefinition_of_bindAll h

/-- In well-formed stores, valid expressions in scopes of the store have traced outcomes. -/
def RunsTraced (allowed : Primitive → Prop) (run : FrameId → Expr → Action Value) : Prop :=
  ∀ ⦃s : Store⦄ ⦃scope : FrameId⦄ ⦃e : Expr⦄, s.WellFormed allowed →
    scope.index < s.frames.size → e.IsValid allowed s → (run scope e s).Traced allowed s

namespace RunsTraced

variable {run : FrameId → Expr → Action Value}

/-- Applying a valid value to valid arguments is traced. -/
theorem applyWith (hrun : RunsTraced allowed run) (host : Host) (h : s.WellFormed allowed)
    {callee : Value} (hcallee : callee.IsValid allowed s) {args : List Value}
    (hargs : ∀ v ∈ args, v.IsValid allowed s) :
    (ObjectLisp.applyWith host run callee args s).Traced allowed s := by
  cases callee with
  | closure id =>
    rw [applyWith_closure]
    split
    · exact traced_fail (.closureArity hcallee _ _)
    · next hlength =>
      cases hd : Store.bindParameters (s.closure id).params args with
      | error e =>
        obtain ⟨name, rfl⟩ :=
          Store.eq_redefinition_of_bindParameters (Decidable.not_not.1 hlength) hd
        exact traced_fail (.redefinition name)
      | ok d =>
        have hframe := Frame.isValid_of_bindParameters hd hargs (some (s.closure id).scope)
        obtain ⟨hscope, hbody⟩ := h.isValid_closure hcallee
        -- The new frame is one step, and the body goes on from there.
        have hstep : s.Step allowed (s.addFrame ⟨d, some (s.closure id).scope⟩).2 := by
          refine .frame ?_
          rintro _ ⟨⟩
          exact hscope
        refine Outcome.Traced.after ?_ (.single hstep)
        exact hrun (h.addFrame hframe) (by simp [Store.addFrame])
          (hbody.mono (s.extends_addFrame _))
  | primitive p => exact p.traced_call host hargs
  | object id =>
    -- An object called with pairs makes a new object of them.
    refine (traced_readOrFail fun e he => Store.raises_of_ofPairs hargs he).bind fun o t ho => ?_
    obtain ⟨ho, rfl⟩ := readOrFail_eq_value ho
    exact Primitive.traced_new (Object.isValid_ofPairs hargs ho) (Object.prototype_of_ofPairs ho)
  | number | bool | null | keyword => exact traced_fail (.notCallable hcallee)

/-- Valid expressions that are evaluated one after another are traced. -/
theorem evaluateAll (hrun : RunsTraced allowed run) (hvalid : RunsValid allowed run)
    (hgrows : ∀ scope e, (run scope e).Grows) {scope : FrameId} (h : s.WellFormed allowed)
    (hscope : scope.index < s.frames.size) {es : List Expr}
    (hes : ∀ e ∈ es, e.IsValid allowed s) :
    (ObjectLisp.evaluateAll (run scope) es s).Traced allowed s := by
  induction es generalizing s with
  | nil => exact .refl
  | cons e rest ih =>
    obtain ⟨he, hrest⟩ := List.forall_mem_cons.1 hes
    refine (hrun h hscope he).bind fun v t hv => ?_
    have hext := (hgrows scope e).extends_of_value hv
    have ht := hvalid h hscope he
    rw [hv] at ht
    exact (ih ht.1 (hext.frame_lt hscope) fun e he => (hrest e he).mono hext).bind
      fun vs u _ => .refl

end RunsTraced

/-- Evaluation is traced, within every depth. -/
theorem runsTraced_evaluate (allowed : Primitive → Prop) (host : Host) (depth : Nat) :
    RunsTraced allowed (evaluate host depth) := by
  induction depth with
  | zero =>
    intro s scope e _ _ _
    -- An evaluation that is cut off leaves nothing to trace.
    exact trivial
  | succ depth ih =>
    have hvalid := runsValid_evaluate allowed host depth
    have hgrows := grows_evaluate host depth
    intro s scope e h hscope he
    cases e with
    | var name =>
      rw [evaluate_var]
      cases s.get? scope name with
      | some v => exact .refl
      | none => exact traced_fail (.unboundVariable name)
    | number | bool | null | keyword | value => exact .refl
    | lambda params body => exact .single (.closure _)
    | application head args =>
      -- The head, the arguments in order, the call: each starts from the store the one before it
      -- left, which is well-formed and only longer.
      have hhead : head.IsValid allowed s := fun v hv => he v (List.mem_append_left _ hv)
      refine (ih h hscope hhead).bind fun callee s₁ hcallee => ?_
      have hext := (hgrows scope head).extends_of_value hcallee
      have h₁ := hvalid h hscope hhead
      rw [hcallee] at h₁
      have hargs : ∀ a ∈ args, a.IsValid allowed s₁ := fun a ha v hv =>
        (he v (List.mem_append_right _ (Expr.mem_allValues.2 ⟨a, ha, hv⟩))).mono hext
      refine (ih.evaluateAll hvalid hgrows h₁.1 (hext.frame_lt hscope) hargs).bind
        fun vs s₂ hvs => ?_
      have h₂ := hvalid.evaluateAll hgrows h₁.1 (hext.frame_lt hscope) hargs
      rw [hvs] at h₂
      refine ih.applyWith host h₂.1 (h₁.2.mono ?_) h₂.2
      exact (grows_evaluateAll (hgrows scope) args).extends_of_value hvs
    | conditional guard consequent alternative =>
      -- The guard is evaluated first, and one of the two branches from the store it left.
      have hguard : guard.IsValid allowed s := fun v hv =>
        he v (List.mem_append_left _ (List.mem_append_left _ hv))
      refine (ih h hscope hguard).bind fun v s₁ hv => ?_
      have hext := (hgrows scope guard).extends_of_value hv
      have h₁ := hvalid h hscope hguard
      rw [hv] at h₁
      cases v with
      | bool b =>
        cases b with
        | true =>
          exact ih h₁.1 (hext.frame_lt hscope) fun v hv =>
            (he v (List.mem_append_left _ (List.mem_append_right _ hv))).mono hext
        | false =>
          exact ih h₁.1 (hext.frame_lt hscope) fun v hv =>
            (he v (List.mem_append_right _ hv)).mono hext
      | number | null | keyword | closure | primitive | object =>
        exact traced_fail (.guardType h₁.2)

/-! ## Statements -/

section Statements

variable {scope : FrameId} {e : Expr} {st : Statement}

/-- An evaluation goes through steps and leaves a well-formed store, whatever it ends in. -/
theorem EvaluatesTo.steps {r : Except RuntimeError Value} (h : EvaluatesTo host scope e s r t)
    (hs : s.WellFormed allowed) (hscope : scope.index < s.frames.size)
    (he : e.IsValid allowed s) : s.Steps allowed t ∧ t.WellFormed allowed := by
  obtain ⟨depth, h⟩ := h
  have htraced := runsTraced_evaluate allowed host depth hs hscope he
  have hvalid := runsValid_evaluate allowed host depth hs hscope he
  cases hout : evaluate host depth scope e s <;> rw [hout] at h htraced hvalid <;> cases h
  · exact ⟨htraced, hvalid.1⟩
  · exact ⟨htraced.1, hvalid⟩

/-- The value of an expression is valid in the store that is left. -/
theorem EvaluatesTo.isValid {v : Value} (h : EvaluatesTo host scope e s (.ok v) t)
    (hs : s.WellFormed allowed) (hscope : scope.index < s.frames.size)
    (he : e.IsValid allowed s) : v.IsValid allowed t := by
  obtain ⟨depth, h⟩ := h
  have hvalid := runsValid_evaluate allowed host depth hs hscope he
  cases hout : evaluate host depth scope e s <;> rw [hout] at h hvalid <;> cases h
  exact hvalid.2

/-- The error of an expression is one that the store that is left can raise. -/
theorem EvaluatesTo.raises {err : RuntimeError} (h : EvaluatesTo host scope e s (.error err) t)
    (hs : s.WellFormed allowed) (hscope : scope.index < s.frames.size)
    (he : e.IsValid allowed s) : t.Raises allowed err := by
  obtain ⟨depth, h⟩ := h
  have htraced := runsTraced_evaluate allowed host depth hs hscope he
  cases hout : evaluate host depth scope e s <;> rw [hout] at h htraced <;> cases h
  exact htraced.2

/-- A statement reaches a well-formed store by steps. -/
theorem Performs.steps {r : Except RuntimeError Effect} (h : Performs host scope st s r t)
    (hs : s.WellFormed allowed) (hscope : scope.index < s.frames.size)
    (hst : st.expr.IsValid allowed s) : s.Steps allowed t ∧ t.WellFormed allowed := by
  cases h with
  | define h hnew =>
    obtain ⟨hsteps, ht⟩ := h.steps hs hscope hst
    exact ⟨hsteps.tail (.binding _ _ _), ht.assign _ _ (h.isValid hs hscope hst)⟩
  | redefine h => exact h.steps hs hscope hst
  | print h => exact h.steps hs hscope hst
  | fail h => exact h.steps hs hscope hst

/-- The error of a statement is one that a program can end with. -/
theorem Performs.raises {err : RuntimeError} (h : Performs host scope st s (.error err) t)
    (hs : s.WellFormed allowed) (hscope : scope.index < s.frames.size)
    (hst : st.expr.IsValid allowed s) : t.Raises allowed err := by
  cases h with
  | redefine => exact .redefinition _
  | fail h => exact h.raises hs hscope hst

end Statements

end ObjectLisp
