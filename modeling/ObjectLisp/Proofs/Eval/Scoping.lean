import ObjectLisp.Proofs.Eval.Depth
import ObjectLisp.Proofs.Simulation.Evaluation
import ObjectLisp.Proofs.Simulation.Identity

/-!
# Lexical scope

The result of an expression depends on its scope only through the values of its free names. Two
scopes that give the same values to these may differ in everything else: in the other names they
bind, in the number of their frames and in the frames themselves.
-/

namespace ObjectLisp

variable {host : Host} {s : Store}

/-- Outcomes with corresponding values show the same result. -/
theorem OutcomesAgree.result?_eq {W : World} {x y : Outcome Value}
    (h : OutcomesAgree host W (World.Relates host) x y) : x.result? = y.result? := by
  cases h with
  | value _ hsim hvw => rw [Outcome.result?, Outcome.result?, hsim.text_eq hvw]
  | error e s t => rfl
  | outOfFuel => rfl

/-- In scopes with the same values for its free names an expression has the same result, within
every depth. -/
theorem result?_evaluate_of_get?_eq (hs : s.WellFormed (Primitive.IsUniform host)) {f g : FrameId}
    (hf : f.index < s.frames.size) (hg : g.index < s.frames.size) {e : Expr}
    (he : e.IsValid (Primitive.IsUniform host) s) (hfree : ∀ x ∈ e.free, s.get? f x = s.get? g x)
    (depth : Nat) : (evaluate host depth f e s).result? = (evaluate host depth g e s).result? := by
  have hrun := runsAgree_evaluate host depth hs.sim (hs.agrees hf hg he hfree)
  rw [Expr.subst_nil] at hrun
  exact hrun.result?_eq

/-- Scopes in which a name has the same value, or is unbound in both, bind it alike. -/
theorem Store.get?_eq_of_get_eq {f g : FrameId} {x : String} (h : s.get f x = s.get g x) :
    s.get? f x = s.get? g x := by
  unfold Store.get at h
  cases hf : s.get? f x with
  | none =>
    cases hg : s.get? g x with
    | none => rfl
    | some w =>
      rw [hf, hg] at h
      nomatch h
  | some v =>
    cases hg : s.get? g x with
    | none =>
      rw [hf, hg] at h
      nomatch h
    | some w =>
      rw [hf, hg] at h
      rw [Except.ok.inj h]

/-- Whether an evaluation ends, and with which result, depends on nothing of the scope but the
values of the free names. -/
theorem evaluates_iff_of_free_names (hs : s.WellFormed (Primitive.IsUniform host)) {f g : FrameId}
    (hf : f.index < s.frames.size) (hg : g.index < s.frames.size) {e : Expr}
    (he : e.IsValid (Primitive.IsUniform host) s) (hfree : ∀ x ∈ e.free, s.get f x = s.get g x)
    (r : Except RuntimeError String) : Evaluates host f e s r ↔ Evaluates host g e s r := by
  have hresult := result?_evaluate_of_get?_eq hs hf hg he fun x hx =>
    Store.get?_eq_of_get_eq (hfree x hx)
  constructor
  · rintro ⟨depth, hr⟩
    exact ⟨depth, hresult depth ▸ hr⟩
  · rintro ⟨depth, hr⟩
    exact ⟨depth, (hresult depth).symm ▸ hr⟩

/-- A top level that binds `x` and a function `f` that reads it, and inside it a frame with another
`x`. -/
def Store.shadowing : Store :=
  let top := (Store.empty.addRoot (Dict.ofList [("x", .keyword "shared")])).2
  let f : Closure := ⟨["z"], .conditional (.var "z") (.var "x") .null, ⟨0⟩⟩
  let defined := (top.addClosure f).2.assign ⟨0⟩ "f" (.closure ⟨0⟩)
  (defined.addFrame ⟨Dict.ofList [("x", .keyword "other"), ("y", .null)], some ⟨0⟩⟩).2

theorem Store.wellFormed_shadowing (allowed : Primitive → Prop) :
    Store.shadowing.WellFormed allowed := by
  refine .addFrame (.assign (.addClosure (.addFrame .empty ?_) ⟨?_, ?_⟩) _ _ ?_) ?_
  · exact Frame.isValid_ofList (by simp [Value.IsValid]) none
  · exact Nat.zero_lt_one
  · intro v hv
    simp [Expr.values] at hv
  · exact Nat.zero_lt_one
  · exact Frame.isValid_ofList (by simp [Value.IsValid]) _

/-- The two scopes have different values for `x`, but `f` reads that of the top level, whoever calls
it. -/
theorem evaluates_call_of_shadowing :
    Store.shadowing.get ⟨0⟩ "x" ≠ Store.shadowing.get ⟨1⟩ "x" ∧
      Evaluates .echo ⟨1⟩
        (.application (.lambda ["y"] (.application (.var "f") [.var "y"])) [.bool true])
        .shadowing (.ok ":shared") := by
  refine ⟨by decide +kernel, (evaluates_iff_of_free_names (f := ⟨0⟩)
    (Store.wellFormed_shadowing _) ?_ ?_ ?_ ?_ _).1 ⟨5, by decide +kernel⟩⟩
  · decide +kernel
  · decide +kernel
  · intro v hv
    simp [Expr.values, Expr.allValues] at hv
  · intro x hx
    have hx : x = "f" := by simpa [Expr.free, Expr.allFree] using hx
    subst hx
    decide +kernel

end ObjectLisp
