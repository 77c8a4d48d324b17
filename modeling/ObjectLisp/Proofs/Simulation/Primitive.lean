import ObjectLisp.Proofs.Eval.Growth
import ObjectLisp.Proofs.Simulation.Object

/-!
# Calls of primitives in corresponding stores agree

`OutcomesRelated` says that two actions end alike: with corresponding values in stores that
correspond again, with equal errors, or not within their depth. `OutcomesRelated.bind` carries
agreement through sequences. Calls of one primitive with corresponding arguments agree, step by
step: the checks of the arguments fail alike, and objects that are built on both sides correspond
from then on.

Stores may correspond more closely than by `Sim`. Primitives read values and add objects, so all
that their calls need is an `IsCorrespondence`; with `Sim` for it, related outcomes are those that
`OutcomesAgree`.
-/

namespace ObjectLisp

open ObjectLisp.Action

/-! ## Correspondences -/

/-- A way in which stores correspond that is a simulation, and that new objects keep if they
agree. -/
structure IsCorrespondence (host : Host) (S : World → Store → Store → Prop) : Prop where
  sim : ∀ {W : World} {s t : Store}, S W s t → Sim host W s t
  addObject : ∀ {W : World} {s t : Store} {a b : Object}, S W s t → ObjectAgrees host W a b →
    S (W.addObject (s.addObject a).1 (t.addObject b).1) (s.addObject a).2 (t.addObject b).2

/-- The similarity of stores is a correspondence. -/
theorem isCorrespondence_sim (host : Host) : IsCorrespondence host (Sim host) where
  sim h := h
  addObject h hab := h.addObject hab

/-! ## Outcomes -/

/-- Outcomes that agree: related values in corresponding stores of a larger world, equal errors, or
no answer on either side. -/
inductive OutcomesRelated {α β : Type} (S : World → Store → Store → Prop) (W : World)
    (Q : World → α → β → Prop) : Outcome α → Outcome β → Prop
  | value {W' : World} {a : α} {b : β} {s t : Store} : W.Le W' → S W' s t → Q W' a b →
      OutcomesRelated S W Q (.value a s) (.value b t)
  | error (e : RuntimeError) (s t : Store) : OutcomesRelated S W Q (.error e s) (.error e t)
  | outOfFuel : OutcomesRelated S W Q .outOfFuel .outOfFuel

/-- Outcomes that agree in stores that correspond by `Sim`. -/
abbrev OutcomesAgree {α β : Type} (host : Host) (W : World) (Q : World → α → β → Prop) :
    Outcome α → Outcome β → Prop :=
  OutcomesRelated (Sim host) W Q

section Outcomes

variable {α β γ δ : Type} {S : World → Store → Store → Prop} {host : Host} {W W' : World}
  {s t : Store} {Q : World → α → β → Prop} {Q' : World → γ → δ → Prop}

/-- Outcomes that agree in a larger world agree. -/
theorem OutcomesRelated.of_le (hW : W.Le W') {x : Outcome α} {y : Outcome β}
    (h : OutcomesRelated S W' Q x y) : OutcomesRelated S W Q x y := by
  cases h with
  | value hW' hS hQ => exact .value (hW.trans hW') hS hQ
  | error e s t => exact .error e s t
  | outOfFuel => exact .outOfFuel

/-- Sequences agree if their first parts do and, from there on, also their second parts. -/
theorem OutcomesRelated.bind {x : Action α} {y : Action β} {f : α → Action γ} {g : β → Action δ}
    (h : OutcomesRelated S W Q (x s) (y t))
    (hfg : ∀ W' a b s' t', W.Le W' → S W' s' t' → Q W' a b → x s = .value a s' →
      y t = .value b t' → OutcomesRelated S W' Q' (f a s') (g b t')) :
    OutcomesRelated S W Q' ((x >>= f) s) ((y >>= g) t) := by
  show OutcomesRelated S W Q' (andThen x f s) (andThen y g t)
  unfold andThen
  generalize x s = o at h hfg ⊢
  generalize y t = o' at h hfg ⊢
  cases h with
  | value hW hS hQ => exact (hfg _ _ _ _ _ hW hS hQ rfl rfl).of_le hW
  | error e s t => exact .error e s t
  | outOfFuel => exact .outOfFuel

/-- Related values are related outcomes where the stores correspond. -/
theorem pure_agrees (h : S W s t) {a : α} {b : β} (hQ : Q W a b) :
    OutcomesRelated S W Q ((pure a : Action α) s) ((pure b : Action β) t) :=
  .value (.refl W) h hQ

/-- So are two failures with the same error. -/
theorem failWith_agrees {e e' : Store → RuntimeError} (he : e s = e' t) :
    OutcomesRelated S W Q (failWith e s) (failWith e' t) := by
  show OutcomesRelated S W Q (.error (e s) s) (.error (e' t) t)
  rw [he]
  exact .error _ s t

/-- Reading without a change has related outcomes when the answers agree. -/
theorem readOrFail_agrees (h : S W s t) {f : Store → Except RuntimeError α}
    {g : Store → Except RuntimeError β} (hfg : AnswersAgree (Q W) (f s) (g t)) :
    OutcomesRelated S W Q (readOrFail f s) (readOrFail g t) := by
  unfold readOrFail
  generalize f s = r at hfg ⊢
  generalize g t = r' at hfg ⊢
  cases hfg with
  | ok hQ => exact .value (.refl W) h hQ
  | error e => exact .error e s t

/-- Related values are agreeing outcomes of similar stores. -/
theorem Sim.pure_agrees (h : Sim host W s t) {a : α} {b : β} (hQ : Q W a b) :
    OutcomesAgree host W Q ((pure a : Action α) s) ((pure b : Action β) t) :=
  ObjectLisp.pure_agrees h hQ

end Outcomes

/-! ## Arguments -/

namespace World.Relates

variable {host : Host} {W : World} {v w : Value}

/-- Related values are the same number, or neither is one. -/
theorem number? (h : W.Relates host v w) : Option.Rel Eq v.number? w.number? := by
  cases h <;> constructor
  rfl

/-- Related values are the same truth value, or neither is one. -/
theorem bool? (h : W.Relates host v w) : Option.Rel Eq v.bool? w.bool? := by
  cases h <;> constructor
  rfl

/-- Related values are the same keyword, or neither is one. -/
theorem keyword? (h : W.Relates host v w) : Option.Rel Eq v.keyword? w.keyword? := by
  cases h <;> constructor
  rfl

/-- Related values are related objects, or neither is an object. -/
theorem object? (h : W.Relates host v w) : Option.Rel W.objects v.object? w.object? := by
  cases h <;> constructor
  assumption

end World.Relates

section Calls

variable {host : Host} {S : World → Store → Store → Prop} {W : World} {s t : Store} {v w : Value}

/-- Corresponding arguments have related contents, or are refused with the same error. -/
theorem IsCorrespondence.argument_agrees {α β : Type} {Q : World → α → β → Prop}
    (hS : IsCorrespondence host S) (h : S W s t) (hvw : W.Relates host v w) (p : Primitive)
    (i : Nat) (expected : ArgumentType)
    {content : Value → Option α} {content' : Value → Option β}
    (hcontent : Option.Rel (Q W) (content v) (content' w)) :
    OutcomesRelated S W Q (p.argument i expected content v s)
      (p.argument i expected content' w t) := by
  unfold Primitive.argument
  generalize content v = a at hcontent ⊢
  generalize content' w = b at hcontent ⊢
  cases hcontent with
  | some hab => exact pure_agrees h hab
  | none => exact failWith_agrees (by rw [(hS.sim h).text_eq hvw])

/-- Related arguments are taken for the same number or refused alike. -/
theorem IsCorrespondence.numberArgument_agrees (hS : IsCorrespondence host S) (h : S W s t)
    (hvw : W.Relates host v w) (p : Primitive) (i : Nat) :
    OutcomesRelated S W (fun _ => Eq) (p.number i v s) (p.number i w t) :=
  hS.argument_agrees h hvw p i .number hvw.number?

/-- Related arguments are taken for the same truth value or refused alike. -/
theorem IsCorrespondence.booleanArgument_agrees (hS : IsCorrespondence host S) (h : S W s t)
    (hvw : W.Relates host v w) (p : Primitive) (i : Nat) :
    OutcomesRelated S W (fun _ => Eq) (p.boolean i v s) (p.boolean i w t) :=
  hS.argument_agrees h hvw p i .boolean hvw.bool?

/-- Related arguments are taken for the same keyword or refused alike. -/
theorem IsCorrespondence.keywordArgument_agrees (hS : IsCorrespondence host S) (h : S W s t)
    (hvw : W.Relates host v w) (p : Primitive) (i : Nat) :
    OutcomesRelated S W (fun _ => Eq) (p.keyword i v s) (p.keyword i w t) :=
  hS.argument_agrees h hvw p i .keyword hvw.keyword?

/-- Related arguments are taken for related objects or refused alike. -/
theorem IsCorrespondence.objectArgument_agrees (hS : IsCorrespondence host S) (h : S W s t)
    (hvw : W.Relates host v w) (p : Primitive) (i : Nat) :
    OutcomesRelated S W World.objects (p.object i v s) (p.object i w t) :=
  hS.argument_agrees h hvw p i .object hvw.object?

/-! ## New objects -/

/-- Objects made of fields that hold no closure or object agree with themselves. -/
theorem objectAgrees_ofFields {fields : List (String × Value)}
    (h : ∀ e ∈ fields, W.Relates host e.2 e.2) :
    ObjectAgrees host W (.ofFields fields) (.ofFields fields) :=
  ⟨fun _ => optionRel_self fun _ hv => h _ (Dict.mem_of_get?_ofList hv), .none⟩

/-- A plain animal agrees with itself, since it holds no frame and no other object. -/
theorem objectAgrees_plainAnimal {furry : Bool} :
    ObjectAgrees host W (Primitive.plainAnimal furry) (Primitive.plainAnimal furry) :=
  objectAgrees_ofFields (by simp [World.Relates.number, World.Relates.bool, World.Relates.keyword])

/-- Agreeing objects that are put in the stores correspond. -/
theorem IsCorrespondence.new_agrees (hS : IsCorrespondence host S) (h : S W s t) {a b : Object}
    (hab : ObjectAgrees host W a b) :
    OutcomesRelated S W (World.Relates host) (Primitive.new a s) (Primitive.new b t) :=
  .value (W.le_addObject _ _) (hS.addObject h hab) (.object (.inr ⟨rfl, rfl⟩))

/-- New animals with the same fields correspond, and so do the animals they inherit from. -/
theorem IsCorrespondence.newKindOfAnimal_agrees (hS : IsCorrespondence host S) (h : S W s t)
    {fields : List (String × Value)}
    (hfields : ∀ W : World, ∀ e ∈ fields, W.Relates host e.2 e.2) (furry : Bool) :
    OutcomesRelated S W (World.Relates host) (Primitive.newKindOfAnimal fields furry s)
      (Primitive.newKindOfAnimal fields furry t) := by
  let x := (s.addObject (Primitive.plainAnimal furry)).1
  let y := (t.addObject (Primitive.plainAnimal furry)).1
  have hchild := objectAgrees_ofFields (hfields (W.addObject x y))
  have hkind : ObjectAgrees host (W.addObject x y)
      { Object.ofFields fields with prototype := some x }
      { Object.ofFields fields with prototype := some y } :=
    ⟨hchild.fields, .some (.inr ⟨rfl, rfl⟩)⟩
  exact (hS.new_agrees (hS.addObject h objectAgrees_plainAnimal) hkind).of_le (W.le_addObject _ _)

/-- New kinds of animals from corresponding arguments correspond. -/
theorem IsCorrespondence.kindOfAnimal_agrees (hS : IsCorrespondence host S) (h : S W s t)
    (p : Primitive) {fields : Float → List (String × Value)}
    (hfields : ∀ x, ∀ W : World, ∀ e ∈ fields x, W.Relates host e.2 e.2) {a a' b b' : Value}
    (ha : W.Relates host a a') (hb : W.Relates host b b') :
    OutcomesRelated S W (World.Relates host) (p.kindOfAnimal fields a b s)
      (p.kindOfAnimal fields a' b' t) := by
  refine (hS.numberArgument_agrees h ha p 1).bind fun W₁ x x' s₁ t₁ hW₁ h₁ hx _ _ => ?_
  refine (hS.booleanArgument_agrees h₁ (hb.mono hW₁) p 2).bind
    fun W₂ furry furry' s₂ t₂ _ h₂ hfurry _ _ => ?_
  rw [hx, hfurry]
  exact hS.newKindOfAnimal_agrees h₂ (hfields x') furry'

/-! ## Calls -/

/-- A primitive of fixed arity refuses every other number of arguments. -/
theorem Primitive.call_of_arity {p : Primitive} {n : Nat} (hp : p.arity = some n)
    {args : List Value} (hargs : args.length ≠ n) :
    p.call host args = .fail (.arityMismatch p.name n args.length) := by
  unfold call
  split
  · exact absurd (Option.some.inj hp) hargs
  · exact absurd (Option.some.inj hp) hargs
  · exact absurd (Option.some.inj hp) hargs
  · exact absurd (Option.some.inj hp) hargs
  · exact absurd (Option.some.inj hp) hargs
  · exact absurd (Option.some.inj hp) hargs
  · exact absurd hp (Option.some_ne_none n).symm
  · exact absurd hp (Option.some_ne_none n).symm
  · rw [hp, Option.getD_some]

/-- Lists whose members correspond have corresponding members at every place. -/
theorem rel_getElem? {α β : Type} {R : α → β → Prop} {as : List α} {bs : List β}
    (h : List.Forall₂ R as bs) (i : Nat) : Option.Rel R as[i]? bs[i]? := by
  induction h generalizing i with
  | nil => exact .none
  | cons hab _ ih =>
    cases i with
    | zero => exact .some hab
    | succ i => exact ih i

/-- A uniform host hands back corresponding arguments. -/
theorem IsCorrespondence.handBack_agrees (hS : IsCorrespondence host S) (h : S W s t)
    {name : String} {id : HostId} (hhost : (Primitive.host name id).IsUniform host)
    {vs ws : List Value} (hvs : List.Forall₂ (W.Relates host) vs ws) :
    OutcomesRelated S W (World.Relates host) (Primitive.handBack host name id vs s)
      (Primitive.handBack host name id ws t) := by
  refine .value (.refl W) h ?_
  dsimp only
  -- The host sees the texts of the arguments only, and these are the same on both sides.
  rw [hhost s t vs ws (map_eq_of_forall₂ hvs fun _ _ hvw => (hS.sim h).text_eq hvw)]
  cases host t name id ws with
  | none => exact .null
  | some i =>
    -- The argument handed back stands at the same index, so the two are related, or there is none.
    have hi := rel_getElem? hvs i
    rw [Option.bind_some, Option.bind_some]
    generalize vs[i]? = v at hi ⊢
    generalize ws[i]? = w at hi ⊢
    cases hi with
    | some hvw => exact hvw
    | none => exact .null

/-- Lists that correspond to a list of one member. -/
theorem forall₂_singleton {α β : Type} {R : α → β → Prop} {a : α} {bs : List β}
    (h : List.Forall₂ R [a] bs) : ∃ b, R a b ∧ bs = [b] := by
  obtain ⟨b, bs, hab, hbs, rfl⟩ := List.forall₂_cons_left_iff.1 h
  obtain rfl := List.forall₂_nil_left_iff.1 hbs
  exact ⟨b, hab, rfl⟩

/-- Lists that correspond to a list of two members. -/
theorem forall₂_pair {α β : Type} {R : α → β → Prop} {a a' : α} {bs : List β}
    (h : List.Forall₂ R [a, a'] bs) : ∃ b b', R a b ∧ R a' b' ∧ bs = [b, b'] := by
  obtain ⟨b, bs, hab, hbs, rfl⟩ := List.forall₂_cons_left_iff.1 h
  obtain ⟨b', hab', rfl⟩ := forall₂_singleton hbs
  exact ⟨b, b', hab, hab', rfl⟩

/-- Calls of primitives that refuse the number of their arguments agree. -/
theorem call_agrees_of_arity {p : Primitive} {n : Nat} (hp : p.arity = some n) {vs ws : List Value}
    (hvs : List.Forall₂ (W.Relates host) vs ws) (hn : vs.length ≠ n) :
    OutcomesRelated S W (World.Relates host) (p.call host vs s) (p.call host ws t) := by
  have hn' : ws.length ≠ n := hvs.length_eq ▸ hn
  rw [Primitive.call_of_arity hp hn, Primitive.call_of_arity hp hn', hvs.length_eq]
  exact .error _ s t

/-- Calls of a primitive with corresponding arguments agree. -/
theorem IsCorrespondence.call_agrees (hS : IsCorrespondence host S) (h : S W s t) {p : Primitive}
    (hp : p.IsUniform host) {vs ws : List Value} (hvs : List.Forall₂ (W.Relates host) vs ws) :
    OutcomesRelated S W (World.Relates host) (p.call host vs s) (p.call host ws t) := by
  cases p with
  | arithmetic op =>
    -- A call with the wrong number of arguments is refused before any of them is looked at, here
    -- and in the cases below.
    by_cases hn : vs.length = 2
    · obtain ⟨a, b, rfl⟩ := List.length_eq_two.1 hn
      obtain ⟨a', b', ha, hb, rfl⟩ := forall₂_pair hvs
      refine (hS.numberArgument_agrees h ha _ 1).bind fun W₁ x x' s₁ t₁ hW₁ h₁ hx _ _ => ?_
      refine (hS.numberArgument_agrees h₁ (hb.mono hW₁) _ 2).bind
        fun W₂ y y' s₂ t₂ hW₂ h₂ hy _ _ => ?_
      rw [hx, hy]
      exact pure_agrees h₂ (.number _)
    · exact call_agrees_of_arity rfl hvs hn
  | isZero =>
    by_cases hn : vs.length = 1
    · obtain ⟨a, rfl⟩ := List.length_eq_one_iff.1 hn
      obtain ⟨a', ha, rfl⟩ := forall₂_singleton hvs
      refine (hS.numberArgument_agrees h ha _ 1).bind fun W₁ x x' s₁ t₁ hW₁ h₁ hx _ _ => ?_
      rw [hx]
      exact pure_agrees h₁ (.bool _)
    · exact call_agrees_of_arity rfl hvs hn
  | makeObject =>
    -- Any number of arguments may come: their pairs are checked, and the object is new in both
    -- stores.
    exact (readOrFail_agrees h ((hS.sim h).ofLiteral_agrees hvs)).bind
      fun W₁ a b s₁ t₁ _ h₁ hab _ _ => hS.new_agrees h₁ hab
  | field =>
    -- What is found is related through the worlds that the two arguments have been read in.
    by_cases hn : vs.length = 2
    · obtain ⟨a, b, rfl⟩ := List.length_eq_two.1 hn
      obtain ⟨a', b', ha, hb, rfl⟩ := forall₂_pair hvs
      refine (hS.objectArgument_agrees h ha _ 1).bind fun W₁ x y s₁ t₁ hW₁ h₁ hxy _ _ => ?_
      refine (hS.keywordArgument_agrees h₁ (hb.mono hW₁) _ 2).bind
        fun W₂ name name' s₂ t₂ hW₂ h₂ hname _ _ => ?_
      rw [hname]
      exact readOrFail_agrees h₂ ((hS.sim h₂).lookup_agrees (hW₂.objects _ _ hxy) name')
    · exact call_agrees_of_arity rfl hvs hn
  | animal =>
    by_cases hn : vs.length = 1
    · obtain ⟨a, rfl⟩ := List.length_eq_one_iff.1 hn
      obtain ⟨a', ha, rfl⟩ := forall₂_singleton hvs
      refine (hS.booleanArgument_agrees h ha _ 1).bind
        fun W₁ furry furry' s₁ t₁ hW₁ h₁ hfurry _ _ => ?_
      rw [hfurry]
      exact hS.new_agrees h₁ objectAgrees_plainAnimal
    · exact call_agrees_of_arity rfl hvs hn
  | dog | cat =>
    by_cases hn : vs.length = 2
    · obtain ⟨a, b, rfl⟩ := List.length_eq_two.1 hn
      obtain ⟨a', b', ha, hb, rfl⟩ := forall₂_pair hvs
      exact hS.kindOfAnimal_agrees h _ (by simp [World.Relates.number, World.Relates.keyword]) ha hb
    · exact call_agrees_of_arity rfl hvs hn
  | host name id => exact hS.handBack_agrees h hp hvs

end Calls

end ObjectLisp
