import Mathlib.Data.List.Induction
import ObjectLisp.Object
import ObjectLisp.Proofs.Simulation.World

/-!
# What can be seen of corresponding values

Corresponding values have the same text, although the texts are written by walking through different
stores: since correspondence is one to one, the two walks meet an object again at the same places.
For the same reason corresponding objects give corresponding answers when they are asked for a
field, and construction from corresponding arguments gives corresponding objects or the same error.
-/

namespace ObjectLisp

variable {host : Host} {W : World} {s t : Store}

namespace Sim

/-! ## Texts -/

/-- An object has been met on the left exactly when the corresponding one has on the right. -/
theorem mem_iff (h : Sim host W s t) {x y : ObjectId} (hxy : W.objects x y)
    {xs ys : List ObjectId} (hxs : List.Forall₂ W.objects xs ys) : x ∈ xs ↔ y ∈ ys := by
  induction hxs with
  | nil => simp
  | cons hab _ ih => rw [List.mem_cons, List.mem_cons, h.oneToOne hxy hab, ih]

/-- The closures that correspond, read from the stores. -/
theorem closure_agrees (h : Sim host W s t) {i j : ClosureId} (hij : W.closures i j) :
    ClosureAgrees host W s t (s.closure i) (t.closure j) := by
  obtain ⟨c, d, hc, hd, hcd⟩ := h.closures i j hij
  rw [Store.closure, Store.closure, Array.getD_eq_getD_getElem?, Array.getD_eq_getD_getElem?, hc,
    hd]
  exact hcd

/-- The objects that correspond, read from the stores. -/
theorem object_agrees (h : Sim host W s t) {x y : ObjectId} (hxy : W.objects x y) :
    ∃ (hx : x.index < s.objects.size) (hy : y.index < t.objects.size),
      ObjectAgrees host W s.objects[x.index] t.objects[y.index] := by
  obtain ⟨a, b, ha, hb, hab⟩ := h.objects x y hxy
  obtain ⟨hx, rfl⟩ := Array.getElem?_eq_some_iff.1 ha
  obtain ⟨hy, rfl⟩ := Array.getElem?_eq_some_iff.1 hb
  exact ⟨hx, hy, hab⟩

end Sim

/-- The prototypes of agreeing objects correspond as values. -/
theorem ObjectAgrees.prototypeValue {a b : Object} (h : ObjectAgrees host W a b) :
    W.Relates host a.prototypeValue b.prototypeValue := by
  have hproto := h.prototype
  unfold Object.prototypeValue
  cases ha : a.prototype with
  | none =>
    cases hb : b.prototype with
    | none => exact .null
    | some y =>
      rw [ha, hb] at hproto
      nomatch hproto
  | some x =>
    cases hb : b.prototype with
    | none =>
      rw [ha, hb] at hproto
      nomatch hproto
    | some y =>
      rw [ha, hb] at hproto
      cases hproto with
      | some hxy => exact .object hxy

/-- Lists whose members correspond have equal images under functions that give the same on
corresponding members. -/
theorem map_eq_of_forall₂ {α β γ : Type} {R : α → β → Prop} {f : α → γ} {g : β → γ} {as : List α}
    {bs : List β} (h : List.Forall₂ R as bs) (hfg : ∀ a b, R a b → f a = g b) :
    as.map f = bs.map g := by
  induction h with
  | nil => rfl
  | cons hab _ ih => rw [List.map_cons, List.map_cons, hfg _ _ hab, ih]

/-- Corresponding values have the same text inside corresponding objects. -/
theorem Sim.textWithin_eq (h : Sim host W s t) {xs ys : List ObjectId}
    (hxs : List.Forall₂ W.objects xs ys) {v w : Value} (hvw : W.Relates host v w) :
    s.textWithin xs v = t.textWithin ys w := by
  induction hn : unvisited s.objectIds xs using Nat.strongRecOn generalizing xs ys v w with
  | ind n ih =>
    cases hvw with
    | number | bool | null | keyword | primitive => rw [Store.textWithin, Store.textWithin]
    | @closure i j hij =>
      obtain ⟨-, hparams, -⟩ := h.closure_agrees hij
      rw [Store.textWithin, Store.textWithin, hparams]
    | @object x y hxy =>
      rw [Store.textWithin, Store.textWithin]
      by_cases hcycle : x ∈ xs
      · rw [dif_pos hcycle, dif_pos ((h.mem_iff hxy hxs).1 hcycle)]
      · obtain ⟨hx, hy, hab⟩ := h.object_agrees hxy
        rw [dif_neg hcycle, dif_neg (mt (h.mem_iff hxy hxs).2 hcycle), dif_pos hx, dif_pos hy]
        -- Inside the two objects fewer objects are left to be met.
        have hinside : ∀ {v w}, W.Relates host v w →
            s.textWithin (x :: xs) v = t.textWithin (y :: ys) w := by
          intro v w hvw
          refine ih _ ?_ (.cons hxy hxs) hvw rfl
          rw [← hn]
          exact unvisited_cons_lt (Store.mem_objectIds.2 hx) hcycle
        have hfields : s.objects[x.index].fields.entries.map
              (fun e => " :" ++ e.1 ++ " " ++ s.textWithin (x :: xs) e.2)
            = t.objects[y.index].fields.entries.map
              (fun e => " :" ++ e.1 ++ " " ++ t.textWithin (y :: ys) e.2) := by
          refine map_eq_of_forall₂ (Dict.matches_iff.1 hab.fields) fun p q hpq => ?_
          rw [hpq.1, hinside hpq.2]
        simp only [hfields, hinside hab.prototypeValue]

/-- Corresponding values have the same text. -/
theorem Sim.text_eq (h : Sim host W s t) {v w : Value} (hvw : W.Relates host v w) :
    s.text v = t.text w :=
  h.textWithin_eq .nil hvw

/-! ## Answers that may be errors -/

/-- The same error, or related answers. -/
inductive AnswersAgree {α β : Type} (Q : α → β → Prop) :
    Except RuntimeError α → Except RuntimeError β → Prop
  | ok {a : α} {b : β} : Q a b → AnswersAgree Q (.ok a) (.ok b)
  | error (e : RuntimeError) : AnswersAgree Q (.error e) (.error e)

/-! ## Fields -/

/-- Searches that end alike, with corresponding values if they find one. -/
inductive SearchAgrees (host : Host) (W : World) : Store.Search → Store.Search → Prop
  | found {v w : Value} : W.Relates host v w → SearchAgrees host W (.found v) (.found w)
  | missing : SearchAgrees host W .missing .missing
  | cyclic : SearchAgrees host W .cyclic .cyclic

/-- Searches from corresponding objects end alike. -/
theorem Sim.search_agrees (h : Sim host W s t) (name : String) {xs ys : List ObjectId}
    (hxs : List.Forall₂ W.objects xs ys) {x y : ObjectId} (hxy : W.objects x y) :
    SearchAgrees host W (s.search name xs x) (t.search name ys y) := by
  induction hn : unvisited s.objectIds xs using Nat.strongRecOn generalizing xs ys x y with
  | ind n ih =>
    rw [Store.search, Store.search]
    by_cases hcycle : x ∈ xs
    · rw [dif_pos hcycle, dif_pos ((h.mem_iff hxy hxs).1 hcycle)]
      exact .cyclic
    · obtain ⟨hx, hy, hab⟩ := h.object_agrees hxy
      rw [dif_neg hcycle, dif_neg (mt (h.mem_iff hxy hxs).2 hcycle), dif_pos hx, dif_pos hy]
      have hname := hab.fields name
      have hproto := hab.prototype
      dsimp only
      generalize s.objects[x.index].fields.get? name = v at hname ⊢
      generalize t.objects[y.index].fields.get? name = w at hname ⊢
      cases hname with
      | some hvw => exact .found hvw
      | none =>
        dsimp only
        generalize s.objects[x.index].prototype = next at hproto ⊢
        generalize t.objects[y.index].prototype = next' at hproto ⊢
        cases hproto with
        | none => exact .missing
        | some hnext =>
          refine ih _ ?_ (.cons hxy hxs) hnext rfl
          rw [← hn]
          exact unvisited_cons_lt (Store.mem_objectIds.2 hx) hcycle

/-- Corresponding objects give corresponding answers when asked for a field. -/
theorem Sim.lookup_agrees (h : Sim host W s t) {x y : ObjectId} (hxy : W.objects x y)
    (name : String) : AnswersAgree (W.Relates host) (s.lookup x name) (t.lookup y name) := by
  have hsearch := h.search_agrees name .nil hxy
  unfold Store.lookup
  generalize s.search name [] x = found at hsearch ⊢
  generalize t.search name [] y = found' at hsearch ⊢
  cases hsearch with
  | found hvw => exact .ok hvw
  | missing =>
    rw [h.text_eq (.object hxy)]
    exact .error _
  | cyclic => exact .error _

/-! ## Construction -/

/-- Corresponding keys stand for the same name or are refused alike. -/
theorem Sim.keyName_eq (h : Sim host W s t) {v w : Value} (hvw : W.Relates host v w) :
    Object.keyName s.text v = Object.keyName t.text w := by
  have hkeyword : v.keyword? = w.keyword? := by
    cases hvw <;> rfl
  rw [Object.keyName, Object.keyName, hkeyword, h.text_eq hvw]

/-- Corresponding lists of keys and values fill agreeing objects alike. -/
theorem Sim.insertPairs_agrees (h : Sim host W s t) {vs ws : List Value}
    (hvs : List.Forall₂ (W.Relates host) vs ws) {a b : Object} (hab : ObjectAgrees host W a b) :
    AnswersAgree (ObjectAgrees host W) (Object.insertPairs s.text vs a)
      (Object.insertPairs t.text ws b) := by
  induction vs using List.twoStepInduction generalizing ws a b with
  | nil =>
    cases hvs
    exact .ok hab
  | singleton key =>
    obtain ⟨w, ws, -, hws, rfl⟩ := List.forall₂_cons_left_iff.1 hvs
    cases hws
    exact .ok hab
  | cons_cons key v rest ih _ =>
    obtain ⟨key', ws', hkey, hws', rfl⟩ := List.forall₂_cons_left_iff.1 hvs
    obtain ⟨w, ws, hvw, hws, rfl⟩ := List.forall₂_cons_left_iff.1 hws'
    rw [Object.insertPairs, Object.insertPairs, h.keyName_eq hkey]
    cases Object.keyName t.text key' with
    | error e => exact .error e
    | ok name => exact ih hws ⟨hab.fields.insert name hvw, hab.prototype⟩

/-- Corresponding lists are checked alike. -/
theorem Sim.checkPairs_eq (h : Sim host W s t) {vs ws : List Value}
    (hvs : List.Forall₂ (W.Relates host) vs ws) :
    Object.checkPairs s.text vs = Object.checkPairs t.text ws := by
  induction vs using List.twoStepInduction generalizing ws with
  | nil =>
    cases hvs
    rfl
  | singleton key =>
    obtain ⟨w, ws, -, hws, rfl⟩ := List.forall₂_cons_left_iff.1 hvs
    cases hws
    rfl
  | cons_cons key v rest ih _ =>
    obtain ⟨key', ws', hkey, hws', rfl⟩ := List.forall₂_cons_left_iff.1 hvs
    obtain ⟨w, ws, hvw, hws, rfl⟩ := List.forall₂_cons_left_iff.1 hws'
    have hliteral : v.isFieldLiteral = w.isFieldLiteral := by
      cases hvw <;> rfl
    rw [Object.checkPairs, Object.checkPairs, h.keyName_eq hkey, hliteral, h.text_eq hvw, ih hws]

theorem objectAgrees_empty : ObjectAgrees host W .empty .empty := ⟨Dict.matches_empty, .none⟩

/-- Construction from corresponding arguments gives agreeing objects or the same error. -/
theorem Sim.ofPairs_agrees (h : Sim host W s t) {vs ws : List Value}
    (hvs : List.Forall₂ (W.Relates host) vs ws) :
    AnswersAgree (ObjectAgrees host W) (Object.ofPairs s.text vs) (Object.ofPairs t.text ws) := by
  rw [Object.ofPairs, Object.ofPairs, hvs.length_eq]
  split
  · exact .error _
  · exact h.insertPairs_agrees hvs objectAgrees_empty

/-- Object literals of corresponding arguments give agreeing objects or the same error. -/
theorem Sim.ofLiteral_agrees (h : Sim host W s t) {vs ws : List Value}
    (hvs : List.Forall₂ (W.Relates host) vs ws) :
    AnswersAgree (ObjectAgrees host W) (Object.ofLiteral s.text vs)
      (Object.ofLiteral t.text ws) := by
  rw [Object.ofLiteral, Object.ofLiteral, hvs.length_eq, h.checkPairs_eq hvs]
  split
  · exact .error _
  · cases Object.checkPairs t.text ws with
    | error e => exact .error e
    | ok _ => exact h.ofPairs_agrees hvs

end ObjectLisp
