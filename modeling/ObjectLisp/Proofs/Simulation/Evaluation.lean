import ObjectLisp.Proofs.Eval.Steps
import ObjectLisp.Proofs.Simulation.Primitive

/-!
# Evaluations in corresponding stores agree

If an expression agrees in two scopes of corresponding stores, its two evaluations end alike. The
proof is by induction on the depth, which is the same on both sides. A call of a closure is the
point of it all: the two frames bind the parameters to corresponding values, and every other free
name of the body is one of the lambda, so the body agrees again (`Agrees.enter`).
-/

namespace ObjectLisp

open ObjectLisp.Action

variable {host : Host} {W : World} {s t : Store} {f g : FrameId} {σ : Substitution}

/-! ## New frames -/

/-- Parameters have corresponding values on both sides, or none. -/
theorem forall₂_zip {params : List String} {vs ws : List Value}
    (hvs : List.Forall₂ (W.Relates host) vs ws) :
    List.Forall₂ (Dict.EntryMatches (W.Relates host)) (params.zip vs) (params.zip ws) := by
  induction hvs generalizing params with
  | nil => simp
  | cons hvw _ ih =>
    cases params with
    | nil => exact .nil
    | cons param params => exact .cons ⟨rfl, hvw⟩ ih

/-- Bindings of the same names can be added on both sides, or fail alike. -/
theorem bindAll_agrees {Q : Value → Value → Prop} {l m : List (String × Value)}
    (hl : List.Forall₂ (Dict.EntryMatches Q) l m) {d d' : Dict Value} (hd : d.Matches Q d') :
    AnswersAgree (Dict.Matches Q) (Store.bindAll l d) (Store.bindAll m d') := by
  induction hl generalizing d d' with
  | nil => exact .ok hd
  | @cons e e' l m he _ ih =>
    obtain ⟨name, v⟩ := e
    obtain ⟨name', w⟩ := e'
    obtain ⟨hname, hvw⟩ := he
    obtain rfl : name = name' := hname
    rw [Store.bindAll, Store.bindAll, hd.contains_eq name]
    split
    · exact .error _
    · exact ih (hd.insert name hvw)

/-- Binding the same parameters to corresponding values succeeds on both sides or fails alike. -/
theorem bindParameters_agrees {params : List String} {vs ws : List Value}
    (hvs : List.Forall₂ (W.Relates host) vs ws) :
    AnswersAgree (Dict.Matches (W.Relates host)) (Store.bindParameters params vs)
      (Store.bindParameters params ws) := by
  rw [Store.bindParameters, Store.bindParameters, hvs.length_eq]
  split
  · exact .error _
  · exact bindAll_agrees (forall₂_zip hvs) Dict.matches_empty

/-- Every free name of the body of a lambda is bound alike, once the parameters are bound to
corresponding values. -/
theorem Agrees.names_of_lambda {params : List String} {body : Expr}
    (h : Agrees host W s t f g σ (.lambda params body)) {vs ws : List Value}
    (hvs : List.Forall₂ (W.Relates host) vs ws) (hlength : params.length = vs.length) {x : String}
    (hx : x ∈ body.free) :
    Option.Rel (W.Relates host) (((params.zip vs).lookup x).or (s.get? f x))
      (((params.zip ws).lookup x).or ((σ.lookup x).or (t.get? g x))) := by
  have hrel : Option.Rel (W.Relates host) ((params.zip vs).lookup x) ((params.zip ws).lookup x) :=
    Dict.rel_lookup (forall₂_zip hvs) x
  have hnone : (params.zip vs).lookup x = none ↔ x ∉ params :=
    Store.lookup_zip_eq_none_iff hlength
  generalize (params.zip vs).lookup x = o at hrel hnone ⊢
  generalize (params.zip ws).lookup x = o' at hrel ⊢
  cases hrel with
  | some hvw => exact .some hvw
  | none =>
    -- A name that has no value among the arguments is no parameter, so the lambda leaves it free.
    have hfree : x ∈ (Expr.lambda params body).free := by
      simp [Expr.free, hx, hnone.1 rfl]
    exact h.names x hfree

/-- Parameters are bound before a substitution is looked at, whether it hides them or not. -/
theorem lookup_hide_or {params : List String} {ws : List Value}
    (hlength : params.length = ws.length) (σ : Substitution) (x : String) (o : Option Value) :
    ((σ.hide params).lookup x).or (((params.zip ws).lookup x).or o)
      = ((params.zip ws).lookup x).or ((σ.lookup x).or o) := by
  rw [Substitution.lookup_hide]
  by_cases hx : x ∈ params
  · obtain ⟨w, hw⟩ := Option.ne_none_iff_exists'.1
      (mt (Store.lookup_zip_eq_none_iff hlength).1 (not_not_intro hx))
    rw [if_pos hx, hw]
    rfl
  · rw [if_neg hx, (Store.lookup_zip_eq_none_iff hlength).2 hx]
    rfl

/-- The body of a lambda agrees in new frames that bind the parameters to corresponding values. -/
theorem Agrees.enter {params : List String} {body : Expr}
    (h : Agrees host W s t f g σ (.lambda params body)) {vs ws : List Value}
    (hvs : List.Forall₂ (W.Relates host) vs ws) {d d' : Dict Value}
    (hd : Store.bindParameters params vs = .ok d) (hd' : Store.bindParameters params ws = .ok d') :
    Agrees host W (s.addFrame ⟨d, some f⟩).2 (t.addFrame ⟨d', some g⟩).2 (s.addFrame ⟨d, some f⟩).1
      (t.addFrame ⟨d', some g⟩).1 (σ.hide params) body where
  left := by simp [Store.addFrame]
  right := by simp [Store.addFrame]
  values v hv := h.values v (by simpa [Expr.values] using hv)
  names x hx := by
    rw [Store.get?_addFrame h.left, Store.get?_addFrame h.right, Store.get?_of_bindParameters hd,
      Store.get?_of_bindParameters hd', lookup_hide_or (Store.length_eq_of_bindParameters hd')]
    exact h.names_of_lambda hvs (Store.length_eq_of_bindParameters hd) hx

/-! ## Application -/

/-- Evaluations by `run` of an expression that agrees agree. -/
def RunsAgree (host : Host) (run : FrameId → Expr → Action Value) : Prop :=
  ∀ ⦃W : World⦄ ⦃s t : Store⦄ ⦃f g : FrameId⦄ ⦃σ : Substitution⦄ ⦃e : Expr⦄, Sim host W s t →
    Agrees host W s t f g σ e →
    OutcomesAgree host W (World.Relates host) (run f e s) (run g (e.subst σ) t)

/-- Calls of corresponding closures agree, if their bodies do. -/
theorem Sim.applyWith_closure_agrees (h : Sim host W s t)
    {run : FrameId → Expr → Action Value} (hrun : RunsAgree host run) {i j : ClosureId}
    (hij : W.closures i j) {vs ws : List Value} (hvs : List.Forall₂ (W.Relates host) vs ws) :
    OutcomesAgree host W (World.Relates host) (applyWith host run (.closure i) vs s)
      (applyWith host run (.closure j) ws t) := by
  obtain ⟨σ, hparams, hbody, hagrees⟩ := h.closure_agrees hij
  rw [applyWith_closure, applyWith_closure, hparams, hbody, hvs.length_eq,
    h.text_eq (.closure hij)]
  split
  · exact .error _ s t
  · have hbind : AnswersAgree _ (Store.bindParameters (s.closure i).params vs)
        (Store.bindParameters (s.closure i).params ws) := bindParameters_agrees hvs
    generalize hd : Store.bindParameters (s.closure i).params vs = r at hbind ⊢
    generalize hd' : Store.bindParameters (s.closure i).params ws = r' at hbind ⊢
    cases hbind with
    | error e => exact .error e s t
    | ok _ =>
      exact hrun (h.extend (s.extends_addFrame _) (t.extends_addFrame _))
        (hagrees.enter hvs hd hd')

/-- Applications of corresponding values agree if those of corresponding closures do. -/
theorem IsCorrespondence.applyWith_agrees {S : World → Store → Store → Prop}
    (hS : IsCorrespondence host S) (h : S W s t) {run : FrameId → Expr → Action Value}
    {vs ws : List Value} (hvs : List.Forall₂ (W.Relates host) vs ws)
    (hclosure : ∀ i j, W.closures i j → OutcomesRelated S W (World.Relates host)
      (applyWith host run (.closure i) vs s) (applyWith host run (.closure j) ws t))
    {v w : Value} (hvw : W.Relates host v w) :
    OutcomesRelated S W (World.Relates host) (applyWith host run v vs s)
      (applyWith host run w ws t) := by
  have htext := (hS.sim h).text_eq hvw
  cases hvw with
  | closure hij => exact hclosure _ _ hij
  | primitive hp => exact hS.call_agrees h hp hvs
  | object hxy =>
    exact (readOrFail_agrees h ((hS.sim h).ofPairs_agrees hvs)).bind
      fun W₁ a b s₁ t₁ _ h₁ hab _ _ => hS.new_agrees h₁ hab
  | number | bool | null | keyword =>
    unfold applyWith
    exact failWith_agrees (congrArg RuntimeError.notCallable htext)

/-- Applications of corresponding values to corresponding arguments agree. -/
theorem Sim.applyWith_agrees (h : Sim host W s t) {run : FrameId → Expr → Action Value}
    (hrun : RunsAgree host run) {v w : Value} (hvw : W.Relates host v w) {vs ws : List Value}
    (hvs : List.Forall₂ (W.Relates host) vs ws) :
    OutcomesAgree host W (World.Relates host) (applyWith host run v vs s)
      (applyWith host run w ws t) :=
  (isCorrespondence_sim host).applyWith_agrees h hvs
    (fun _ _ hij => h.applyWith_closure_agrees hrun hij hvs) hvw

/-! ## Evaluation -/

/-- Lists of expressions that agree evaluate to corresponding values, or fail alike. -/
theorem RunsAgree.evaluateAll {run : FrameId → Expr → Action Value} (hrun : RunsAgree host run)
    (hgrows : ∀ scope e, (run scope e).Grows) (h : Sim host W s t) {es : List Expr}
    (hes : ∀ e ∈ es, Agrees host W s t f g σ e) :
    OutcomesAgree host W (fun W => List.Forall₂ (W.Relates host))
      (ObjectLisp.evaluateAll (run f) es s)
      (ObjectLisp.evaluateAll (run g) (Expr.substAll σ es) t) := by
  induction es generalizing W s t with
  | nil => exact h.pure_agrees .nil
  | cons e rest ih =>
    obtain ⟨he, hrest⟩ := List.forall_mem_cons.1 hes
    refine (hrun h he).bind fun W₁ v w s₁ t₁ hW₁ h₁ hvw hs ht => ?_
    have hrest₁ : ∀ e ∈ rest, Agrees host W₁ s₁ t₁ f g σ e := fun e he => (hrest e he).mono hW₁
      ((hgrows _ _).extends_of_value hs) ((hgrows _ _).extends_of_value ht)
    refine (ih h₁ hrest₁).bind fun W₂ vs ws s₂ t₂ hW₂ h₂ hvs _ _ => ?_
    exact h₂.pure_agrees (.cons (hvw.mono hW₂) hvs)

/-- An evaluation of a name agrees with one of what stands in its place. -/
theorem evaluate_var_agrees (h : Sim host W s t) {name : String}
    (he : Agrees host W s t f g σ (.var name)) (depth : Nat) :
    OutcomesAgree host W (World.Relates host) (evaluate host (depth + 1) f (.var name) s)
      (evaluate host (depth + 1) g ((Expr.var name).subst σ) t) := by
  have hname := he.names name (by simp [Expr.free])
  rw [Expr.subst]
  cases hσ : σ.lookup name with
  | some w =>
    rw [hσ, Option.some_or] at hname
    rw [evaluate_var]
    generalize s.get? f name = o at hname ⊢
    cases hname with
    | some hvw => exact .value (.refl W) h hvw
  | none =>
    rw [hσ, Option.none_or] at hname
    rw [evaluate_var, evaluate_var]
    generalize s.get? f name = o at hname ⊢
    generalize t.get? g name = o' at hname ⊢
    cases hname with
    | some hvw => exact .value (.refl W) h hvw
    | none => exact .error _ s t

/-- Evaluations of an expression that agrees agree within every depth. -/
theorem runsAgree_evaluate (host : Host) (depth : Nat) : RunsAgree host (evaluate host depth) := by
  induction depth with
  | zero =>
    intro W s t f g σ e _ _
    exact .outOfFuel
  | succ depth ih =>
    intro W s t f g σ e h he
    cases e with
    | var name => exact evaluate_var_agrees h he depth
    | number x => exact h.pure_agrees (.number x)
    | bool b => exact h.pure_agrees (.bool b)
    | null => exact h.pure_agrees .null
    | keyword name => exact h.pure_agrees (.keyword name)
    | value v => exact h.pure_agrees (he.values v (by simp [Expr.values]))
    | lambda params body =>
      -- The left closure keeps its frame where the right one has values in its body.
      have hcd : ClosureAgrees host W s t ⟨params, body, f⟩
          ⟨params, body.subst (σ.hide params), g⟩ := ⟨σ, rfl, rfl, he⟩
      exact .value (W.le_addClosure _ _) (h.addClosure hcd) (.closure (.inr ⟨rfl, rfl⟩))
    | application head args =>
      have hhead : Agrees host W s t f g σ head :=
        he.sub (by simp [Expr.values]) (by simp [Expr.free])
      refine (ih h hhead).bind fun W₁ v w s₁ t₁ hW₁ h₁ hvw hs ht => ?_
      have hargs : ∀ a ∈ args, Agrees host W₁ s₁ t₁ f g σ a := by
        intro a ha
        refine (he.sub (fun v hv => ?_) (fun x hx => ?_)).mono hW₁
          ((grows_evaluate _ _ _ _).extends_of_value hs)
          ((grows_evaluate _ _ _ _).extends_of_value ht)
        · exact List.mem_append_right _ (Expr.mem_allValues.2 ⟨a, ha, hv⟩)
        · exact List.mem_append_right _ (Expr.mem_allFree.2 ⟨a, ha, hx⟩)
      refine (ih.evaluateAll (grows_evaluate host depth) h₁ hargs).bind
        fun W₂ vs ws s₂ t₂ hW₂ h₂ hvs _ _ => ?_
      exact h₂.applyWith_agrees ih (hvw.mono hW₂) hvs
    | conditional guard consequent alternative =>
      have hguard : Agrees host W s t f g σ guard :=
        he.sub (by simp [Expr.values]) (by simp [Expr.free])
      refine (ih h hguard).bind fun W₁ v w s₁ t₁ hW₁ h₁ hvw hs ht => ?_
      have he₁ := he.mono hW₁ ((grows_evaluate _ _ _ _).extends_of_value hs)
        ((grows_evaluate _ _ _ _).extends_of_value ht)
      have htext := h₁.text_eq hvw
      cases hvw with
      | bool b =>
        cases b with
        | true => exact ih h₁ (he₁.sub (by simp [Expr.values]) (by simp [Expr.free]))
        | false => exact ih h₁ (he₁.sub (by simp [Expr.values]) (by simp [Expr.free]))
      | number | null | keyword | primitive | closure | object =>
        refine failWith_agrees ?_
        exact congrArg RuntimeError.guardType htext

end ObjectLisp
