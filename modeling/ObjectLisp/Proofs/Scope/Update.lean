import ObjectLisp.Proofs.Store.Reachable

/-!
# Changed bindings

An assignment to a frame is seen from those scopes that see the frame, and from no others: where
a nearer frame binds the name, or the frame is not around the scope, all names have the values they
had (`Store.get?_assign_of_not_sees`).

An update assigns to the nearest frame that binds the name. The frame binds it already, so no frame
has new names, and exactly the scopes with the same nearest frame see the new value.
-/

namespace ObjectLisp.Store

variable {host : Host} {s t : Store} {scope id : FrameId} {name x : String} {v : Value}

/-! ## Assignments -/

/-- A frame that binds a name is in the store. -/
theorem frame_lt_of_contains (h : (s.frame id).bindings.contains name = true) :
    id.index < s.frames.size := by
  by_contra hid
  rw [frame, Array.getD_eq_getD_getElem?, Array.getElem?_eq_none (Nat.le_of_not_lt hid)] at h
  exact Bool.false_ne_true h

/-- The bindings of all frames after an assignment to one of them. -/
theorem get?_frame_assign (hid : id.index < s.frames.size) (name : String) (v : Value)
    (f : FrameId) (x : String) :
    ((s.assign id name v).frame f).bindings.get? x
      = if f = id ∧ x = name then some v else (s.frame f).bindings.get? x := by
  by_cases hf : f = id
  · subst hf
    rw [frame_assign hid]
    simp only [Dict.get?_insert, true_and]
  · rw [frame_assign_of_ne hf, if_neg fun h => hf h.1]

/-- The frame is seen from the scope, so the scope has the assigned value. -/
theorem get?_assign_of_sees (hs : s.Nested) (hid : id.index < s.frames.size) (v : Value)
    (h : s.Sees name scope id) : (s.assign id name v).get? scope name = some v := by
  have ht := hs.of_outer_eq (s.outer_assign id name v)
  induction scope using hs.induction with
  | step scope ih =>
    rw [ht.get?_eq, get?_frame_assign hid, outer_assign]
    rcases sees_iff.1 h with rfl | ⟨hfree, outer, houter, hsees⟩
    · rw [if_pos ⟨rfl, rfl⟩, Option.some_or]
    · rw [houter, Option.bind_some, ih outer houter hsees, Dict.contains_eq_false_iff.1 hfree]
      split <;> rfl

/-- The frame is not seen from the scope, or the name is another one, so the value is the old
one. -/
theorem get?_assign_of_not_sees (hs : s.Nested) (hid : id.index < s.frames.size) (v : Value)
    (h : ¬ (x = name ∧ s.Sees name scope id)) :
    (s.assign id name v).get? scope x = s.get? scope x := by
  have ht := hs.of_outer_eq (s.outer_assign id name v)
  induction scope using hs.induction with
  | step scope ih =>
    have hother : ¬ (scope = id ∧ x = name) := by
      rintro ⟨rfl, rfl⟩
      exact h ⟨rfl, s.sees_self x scope⟩
    rw [ht.get?_eq, hs.get?_eq, get?_frame_assign hid, outer_assign, if_neg hother]
    cases hown : (s.frame scope).bindings.get? x with
    | some w => rfl
    | none =>
      -- The frame lets the name through, so what is seen from the frame around it is seen from it.
      cases houter : (s.frame scope).outer with
      | none => rfl
      | some outer =>
        rw [Option.bind_some, Option.bind_some, ih outer houter]
        rintro ⟨rfl, hsees⟩
        exact h ⟨rfl, hsees.of_outer (Dict.contains_eq_false_iff.2 hown) houter⟩

/-! ## Names and chains -/

/-- A chain depends on which frames are around each other, from its first frame outwards. -/
theorem chain_congr
    (h : ∀ id, id.index ≤ scope.index → (t.frame id).outer = (s.frame id).outer) :
    t.chain scope = s.chain scope := by
  fun_induction s.chain scope with
  | case1 scope ih =>
    rw [chain, h scope (Nat.le_refl _)]
    cases (s.frame scope).outer with
    | none => rfl
    | some outer =>
      by_cases hlt : outer.index < scope.index
      · have hrest := ih outer hlt fun id hid => h id (Nat.le_trans hid (Nat.le_of_lt hlt))
        simp only [if_pos hlt, hrest]
      · simp only [if_neg hlt]

/-- An assignment to a name that the frame binds changes the names of no frame. -/
theorem localNames_assign (h : (s.frame id).bindings.contains name = true) (v : Value)
    (f : FrameId) : (s.assign id name v).localNames f = s.localNames f := by
  rw [localNames, localNames]
  by_cases hf : f = id
  · subst hf
    rw [frame_assign (frame_lt_of_contains h)]
    exact Dict.names_insert_of_contains h v
  · rw [frame_assign_of_ne hf]

/-- Owners depend on the chains and on the names that frames bind, not on the values. -/
theorem owner?_congr (hchain : t.chain scope = s.chain scope)
    (hnames : ∀ f, t.localNames f = s.localNames f) (x : String) :
    t.owner? scope x = s.owner? scope x := by
  rw [owner?, owner?, hchain]
  congr 1
  funext f
  rw [Bool.eq_iff_iff, ← Dict.mem_names_iff, ← Dict.mem_names_iff]
  exact iff_of_eq (congrArg (x ∈ ·) (hnames f))

/-! ## Updates -/

/-- An update fails where the name has no owner, and else assigns to the owner. -/
theorem update_cases (s : Store) (scope : FrameId) (name : String) (v : Value) :
    s.owner? scope name = none ∧ s.update scope name v = (.error (.unboundVariable name), s)
    ∨ ∃ id, s.owner? scope name = some id
      ∧ s.update scope name v = (.ok (), s.assign id name v) := by
  rw [update]
  cases s.owner? scope name with
  | none => exact .inl ⟨rfl, rfl⟩
  | some id => exact .inr ⟨id, rfl, rfl⟩

theorem exists_get_eq_ok_iff :
    (∃ w, s.get scope name = .ok w) ↔ (s.owner? scope name).isSome = true := by
  simp only [get_eq_ok_iff]
  rw [← isSome_get?, Option.isSome_iff_exists]

/-- A name has the value of its owner, the nearest frame from the scope outwards that binds it. It
has a value, it is bound, and it can be updated under the same condition. An update that fails
changes nothing. One that succeeds gives the new value to the name wherever it has the same owner,
and leaves all other values, and all names and depths, as they were. -/
theorem update_changes_owner (hs : s.Reachable host) (scope : FrameId) (name : String) (v : Value) :
    (∀ w, s.get scope name = .ok w
      ↔ ∃ id, s.Owns name scope id ∧ (s.frame id).bindings.get? name = some w)
    ∧ (s.has scope name = true ↔ ∃ w, s.get scope name = .ok w)
    ∧ ((s.update scope name v).1 = .ok () ↔ ∃ w, s.get scope name = .ok w)
    ∧ (∀ e, (s.update scope name v).1 = .error e →
      e = .unboundVariable name ∧ (s.update scope name v).2 = s)
    ∧ ∀ t, s.update scope name v = (.ok (), t) →
      (∀ scope' x, (x = name ∧ ∃ id, s.Owns name scope id ∧ s.Owns name scope' id) →
        t.get scope' x = .ok v)
      ∧ (∀ scope' x, ¬ (x = name ∧ ∃ id, s.Owns name scope id ∧ s.Owns name scope' id) →
        t.get scope' x = s.get scope' x)
      ∧ ∀ scope', (∀ x, t.has scope' x = s.has scope' x) ∧ t.depth scope' = s.depth scope'
        ∧ t.localNames scope' = s.localNames scope' := by
  have hnested := hs.nested
  refine ⟨fun w => hnested.get_eq_ok_iff, exists_get_eq_ok_iff.symm, ?_⟩
  rw [exists_get_eq_ok_iff]
  rcases s.update_cases scope name v with ⟨hnone, hupdate⟩ | ⟨id, hid, hupdate⟩
  · rw [hupdate, hnone]
    refine ⟨⟨nofun, nofun⟩, ?_, nofun⟩
    rintro _ ⟨⟩
    exact ⟨rfl, rfl⟩
  · rw [hupdate, hid]
    refine ⟨⟨fun _ => rfl, fun _ => rfl⟩, nofun, ?_⟩
    rintro _ ⟨⟩
    have howns := hnested.owner?_eq_some_iff.1 hid
    have hlt := frame_lt_of_contains howns.binds
    have hchain (scope' : FrameId) : (s.assign id name v).chain scope' = s.chain scope' :=
      chain_congr fun f _ => s.outer_assign id name v f
    have hnames := localNames_assign howns.binds v
    refine ⟨?_, fun scope' x h => ?_, fun scope' => ⟨fun x => ?_, ?_, hnames scope'⟩⟩
    · rintro scope' _ ⟨rfl, id', hid', howns'⟩
      obtain rfl := howns.unique hid'
      exact get_eq_ok_iff.2 (get?_assign_of_sees hnested hlt v howns'.sees)
    · refine get_congr (get?_assign_of_not_sees hnested hlt v ?_)
      rintro ⟨rfl, hsees⟩
      exact h ⟨rfl, id, howns, hsees, howns.binds⟩
    · rw [has, has, owner?_congr (hchain scope') hnames]
    · rw [depth, depth, hchain]

/-- A top level that binds `x`, inside it a frame without `x`, and inside that a frame with another
`x`. -/
def shadowedTwice : Store :=
  (((empty.addRoot (.ofList [("x", .keyword "a")])).2.extend ⟨0⟩ ["y"] [.null]).2.extend ⟨1⟩ ["x"]
    [.keyword "b"]).2

theorem reachable_shadowedTwice (host : Host) : shadowedTwice.Reachable host := by
  refine .tail (.tail (.single (.addRoot ?_)) (.extend ?_ ["y"] ?_)) (.extend ?_ ["x"] ?_)
  · simp [Value.IsValid]
  · decide +kernel
  · simp [Value.IsValid]
  · decide +kernel
  · simp [Value.IsValid]

/-- An update from the frame in the middle is seen from there and from the top level, and not from
the innermost frame. -/
theorem update_changes_owner_shadowedTwice :
    ∃ t, shadowedTwice.update ⟨1⟩ "x" (.keyword "c") = (.ok (), t)
      ∧ t.get ⟨0⟩ "x" = .ok (.keyword "c") ∧ t.get ⟨1⟩ "x" = .ok (.keyword "c")
      ∧ t.get ⟨2⟩ "x" = shadowedTwice.get ⟨2⟩ "x" ∧ t.localNames ⟨1⟩ = ["y"] := by
  have hreachable := reachable_shadowedTwice .echo
  have howner (scope id : FrameId) (h : shadowedTwice.owner? scope "x" = some id) :
      shadowedTwice.Owns "x" scope id := hreachable.nested.owner?_eq_some_iff.1 h
  have htop := howner ⟨0⟩ ⟨0⟩ (by decide +kernel)
  have hmiddle := howner ⟨1⟩ ⟨0⟩ (by decide +kernel)
  have hinner := howner ⟨2⟩ ⟨2⟩ (by decide +kernel)
  obtain ⟨-, -, hok, -, hlaw⟩ := update_changes_owner hreachable ⟨1⟩ "x" (.keyword "c")
  have hupdate : shadowedTwice.update ⟨1⟩ "x" (.keyword "c")
      = (.ok (), (shadowedTwice.update ⟨1⟩ "x" (.keyword "c")).2) :=
    Prod.ext (hok.2 ⟨.keyword "a", by decide +kernel⟩) rfl
  obtain ⟨hseen, hhidden, hshape⟩ := hlaw _ hupdate
  refine ⟨_, hupdate, hseen ⟨0⟩ "x" ⟨rfl, ⟨0⟩, hmiddle, htop⟩,
    hseen ⟨1⟩ "x" ⟨rfl, ⟨0⟩, hmiddle, hmiddle⟩, hhidden ⟨2⟩ "x" ?_, ?_⟩
  · rintro ⟨-, id, hid, hid'⟩
    cases hmiddle.unique hid
    cases hinner.unique hid'
  · rw [(hshape ⟨1⟩).2.2]
    decide +kernel

end ObjectLisp.Store
