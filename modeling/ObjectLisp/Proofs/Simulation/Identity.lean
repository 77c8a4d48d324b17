import ObjectLisp.Proofs.Simulation.World
import ObjectLisp.Proofs.Store.WellFormed

/-!
# A store and itself

A well-formed store corresponds to itself, with everything in its place, if the host functions in it
are uniform. An expression agrees with itself in two scopes as soon as they give the same values to
its free names.
-/

namespace ObjectLisp

variable {host : Host} {s : Store}

/-- Every closure and every object of the store corresponds to itself. -/
def World.identity (s : Store) : World where
  closures i j := i = j ∧ i.index < s.closures.size
  objects x y := x = y ∧ x.index < s.objects.size

/-- A valid value corresponds to itself. -/
theorem Value.IsValid.relates {v : Value} (h : v.IsValid (Primitive.IsUniform host) s) :
    (World.identity s).Relates host v v := by
  cases v with
  | number x => exact .number x
  | bool b => exact .bool b
  | null => exact .null
  | keyword name => exact .keyword name
  | closure id => exact .closure ⟨rfl, h⟩
  | primitive p => exact .primitive h
  | object id => exact .object ⟨rfl, h⟩

namespace Store.WellFormed

/-- An expression agrees with itself in two scopes that give the same values to its free names. -/
theorem agrees (h : s.WellFormed (Primitive.IsUniform host)) {f g : FrameId}
    (hf : f.index < s.frames.size) (hg : g.index < s.frames.size) {e : Expr}
    (he : e.IsValid (Primitive.IsUniform host) s) (hfree : ∀ x ∈ e.free, s.get? f x = s.get? g x) :
    Agrees host (World.identity s) s s f g [] e where
  left := hf
  right := hg
  values v hv := (he v hv).relates
  names x hx := by
    rw [List.lookup_nil, Option.none_or, hfree x hx]
    exact optionRel_self fun _ hv => (h.isValid_get? hv).relates

/-- A well-formed store corresponds to itself. -/
theorem sim (h : s.WellFormed (Primitive.IsUniform host)) : Sim host (World.identity s) s s where
  closures := by
    rintro i _ ⟨rfl, hi⟩
    have hmem : s.closures[i.index] ∈ s.closures := Array.getElem_mem hi
    have hvalid := h.closures _ hmem
    refine ⟨_, _, Array.getElem?_eq_getElem hi, Array.getElem?_eq_getElem hi, [], rfl,
      (Expr.subst_nil _).symm, h.agrees hvalid.scope hvalid.scope (fun v hv => ?_) fun _ _ => rfl⟩
    exact hvalid.body v (by simpa [Expr.values] using hv)
  objects := by
    rintro x _ ⟨rfl, hx⟩
    have hmem : s.objects[x.index] ∈ s.objects := Array.getElem_mem hx
    refine ⟨_, _, Array.getElem?_eq_getElem hx, Array.getElem?_eq_getElem hx, fun name => ?_, ?_⟩
    · exact optionRel_self fun v hv => ((h.objects _ hmem).fields name v hv).relates
    · exact optionRel_self fun y hy => ⟨rfl, (h.objects _ hmem).prototype y hy⟩
  oneToOne := by
    rintro x _ x' _ ⟨rfl, -⟩ ⟨rfl, -⟩
    exact Iff.rfl

end Store.WellFormed

end ObjectLisp
