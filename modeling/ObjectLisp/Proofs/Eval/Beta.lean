import ObjectLisp.Proofs.Eval.Scoping

/-!
# Calls by substitution

A lambda applied to arguments has the result that its body has with the values of the arguments in
the place of the parameters. On the one side there is a closure and a frame for the call, on the
other side neither, and closures that the body makes keep the frame on the one side and the values
on the other. The simulation relates the two: it starts from the store and itself, with the closure
of the lambda on the left only.
-/

namespace ObjectLisp

variable {host : Host} {W : World} {s t : Store} {f g : FrameId}

/-- The body of a lambda, in a new frame that binds the parameters, agrees with the body with
corresponding values put in. -/
theorem Agrees.enter_subst {params : List String} {body : Expr}
    (h : Agrees host W s t f g [] (.lambda params body)) {vs ws : List Value}
    (hvs : List.Forall₂ (W.Relates host) vs ws) {d : Dict Value}
    (hd : Store.bindParameters params vs = .ok d) :
    Agrees host W (s.addFrame ⟨d, some f⟩).2 t (s.addFrame ⟨d, some f⟩).1 g (params.zip ws)
      body where
  left := by simp [Store.addFrame]
  right := h.right
  values v hv := h.values v (by simpa [Expr.values] using hv)
  names x hx := by
    have hname := h.names_of_lambda hvs (Store.length_eq_of_bindParameters hd) hx
    rw [List.lookup_nil, Option.none_or] at hname
    rwa [Store.get?_addFrame h.left, Store.get?_of_bindParameters hd]

/-- Arguments that have been evaluated are evaluated alike within every larger depth. -/
theorem evaluateAll_of_le {depth depth' : Nat} (hle : depth ≤ depth') {scope : FrameId}
    {args : List Expr} {vs : List Value} {s₁ : Store}
    (h : evaluateAll (evaluate host depth scope) args s = .value vs s₁) :
    evaluateAll (evaluate host depth' scope) args s = .value vs s₁ := by
  rcases evaluateAll_approximates (evaluate_approximates host hle scope) args s with hout | heq
  · rw [hout] at h
    nomatch h
  · rwa [← heq]

/-- A call of a new closure binds its parameters in a new frame of its scope and evaluates its body
there, in whatever has become of the store. -/
theorem applyWith_addClosure {run : FrameId → Expr → Action Value} {c : Closure}
    (ht : (s.addClosure c).2.Extends t) {vs : List Value} {d : Dict Value}
    (hd : Store.bindParameters c.params vs = .ok d) :
    applyWith host run (.closure (s.addClosure c).1) vs t
      = run (t.addFrame ⟨d, some c.scope⟩).1 c.body (t.addFrame ⟨d, some c.scope⟩).2 := by
  have hc : t.closure (s.addClosure c).1 = c := by
    have hget := ht.closures (s.addClosure c).1.index c Array.getElem?_push_size
    rw [Store.closure, Array.getD_eq_getD_getElem?, hget, Option.getD_some]
  rw [applyWith_closure, hc, if_neg (not_not_intro (Store.length_eq_of_bindParameters hd)), hd]

/-- Within a depth that suffices for the arguments, an application of a lambda has the result of the
body with the values of the arguments put in. -/
theorem result?_evaluate_application_lambda (hs : s.WellFormed (Primitive.IsUniform host))
    {scope : FrameId} (hscope : scope.index < s.frames.size) {params : List String}
    (hparams : params.Nodup) {body : Expr} {args : List Expr}
    (he : (Expr.application (.lambda params body) args).IsValid (Primitive.IsUniform host) s)
    (hlength : params.length = args.length) {depth : Nat} {vs : List Value} {s₁ : Store}
    (hargs : evaluateAll (evaluate host (depth + 1) scope) args s = .value vs s₁) :
    (evaluate host (depth + 2) scope (.application (.lambda params body) args) s).result?
      = (evaluate host (depth + 1) scope (body.subst (params.zip vs)) s₁).result? := by
  have hbody : (Expr.lambda params body).IsValid (Primitive.IsUniform host) s := fun v hv =>
    he v (List.mem_append_left _ hv)
  have hvalid : ∀ a ∈ args, a.IsValid (Primitive.IsUniform host) s := fun a ha v hv =>
    he v (List.mem_append_right _ (Expr.mem_allValues.2 ⟨a, ha, hv⟩))
  -- The head adds its closure on the left only, and the arguments are evaluated on both sides.
  have hadd := s.extends_addClosure ⟨params, body, scope⟩
  have hsim := hs.sim.extend hadd (.refl s)
  have hagrees : ∀ a ∈ args, Agrees host (World.identity s)
      (s.addClosure ⟨params, body, scope⟩).2 s scope scope [] a := fun a ha =>
    (hs.agrees hscope hscope (hvalid a ha) fun _ _ => rfl).mono (.refl _) hadd (.refl s)
  have hall := (runsAgree_evaluate host (depth + 1)).evaluateAll (grows_evaluate host (depth + 1))
    hsim hagrees
  rw [Expr.substAll_nil, hargs] at hall
  generalize hleft : evaluateAll (evaluate host (depth + 1) scope) args
    (s.addClosure ⟨params, body, scope⟩).2 = o at hall
  cases hall with
  | @value W ws _ t _ hW hsim hws =>
    have hvs : params.length = ws.length := by
      rw [hlength, length_eq_of_evaluateAll hleft]
    obtain ⟨d, hd⟩ := Store.exists_bindParameters hvs hparams
    have hgrows := grows_evaluateAll (grows_evaluate host (depth + 1) scope) args
    have ht := hgrows.extends_of_value hleft
    have hs₁ := hgrows.extends_of_value hargs
    have hlambda : Agrees host W t s₁ scope scope [] (.lambda params body) :=
      (hs.agrees hscope hscope hbody fun _ _ => rfl).mono hW (hadd.trans ht) hs₁
    -- From here on the left store has one more closure, and the call adds a frame to it.
    have hhead : evaluate host (depth + 1) scope (.lambda params body) s
        = .value (.closure (s.addClosure ⟨params, body, scope⟩).1)
          (s.addClosure ⟨params, body, scope⟩).2 := rfl
    rw [evaluate_application hhead hleft, applyWith_addClosure ht hd]
    exact (runsAgree_evaluate host (depth + 1) (hsim.extend (t.extends_addFrame _) (.refl s₁))
      (hlambda.enter_subst hws hd)).result?_eq

/-- Beta: a lambda applied to arguments that have values ends with the same result as its body with
these values in the place of the parameters, evaluated where the arguments left the store. -/
theorem evaluates_application_lambda_iff (hs : s.WellFormed (Primitive.IsUniform host))
    {scope : FrameId} (hscope : scope.index < s.frames.size) {params : List String}
    (hparams : params.Nodup) {body : Expr} {args : List Expr}
    (he : (Expr.application (.lambda params body) args).IsValid (Primitive.IsUniform host) s)
    (hlength : params.length = args.length) {depth : Nat} {vs : List Value} {s₁ : Store}
    (hargs : evaluateAll (evaluate host depth scope) args s = .value vs s₁)
    (r : Except RuntimeError String) :
    Evaluates host scope (.application (.lambda params body) args) s r ↔
      Evaluates host scope (body.subst (params.zip vs)) s₁ r := by
  have hresult : ∀ n, depth ≤ n + 1 →
      (evaluate host (n + 2) scope (.application (.lambda params body) args) s).result?
        = (evaluate host (n + 1) scope (body.subst (params.zip vs)) s₁).result? := fun n hn =>
    result?_evaluate_application_lambda hs hscope hparams he hlength (evaluateAll_of_le hn hargs)
  -- Either side is taken to a depth that suffices for the arguments too.
  constructor
  · rintro ⟨n, hr⟩
    have hr' := result?_evaluate_of_le (show n ≤ max n depth + 2 by omega) hr
    exact ⟨max n depth + 1, hresult (max n depth) (by omega) ▸ hr'⟩
  · rintro ⟨n, hr⟩
    have hr' := result?_evaluate_of_le (show n ≤ max n depth + 1 by omega) hr
    exact ⟨max n depth + 2, (hresult (max n depth) (by omega)).trans hr'⟩

/-- A lambda of two parameters, one of which its body binds again, applied to a closure and a truth
value in the inner frame of `Store.shadowing`. -/
theorem evaluates_application_of_shadowing :
    Evaluates .echo ⟨1⟩
      (.application
        (.lambda ["a", "b"] (.conditional (.var "b")
          (.application (.lambda ["b"] (.application (.var "a") [])) [.null]) .null))
        [.lambda [] (.var "x"), .bool true])
      .shadowing (.ok ":other") := by
  have hargs : evaluateAll (evaluate .echo 1 ⟨1⟩) [.lambda [] (.var "x"), .bool true] .shadowing
      = .value [.closure ⟨1⟩, .bool true] (Store.shadowing.addClosure ⟨[], .var "x", ⟨1⟩⟩).2 := rfl
  refine (evaluates_application_lambda_iff (Store.wellFormed_shadowing _) ?_ ?_ ?_ ?_ hargs _).2
    ⟨4, by decide +kernel⟩
  · decide +kernel
  · decide
  · intro v hv
    simp [Expr.values, Expr.allValues] at hv
  · rfl

end ObjectLisp
