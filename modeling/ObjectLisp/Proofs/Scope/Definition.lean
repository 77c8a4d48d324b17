import ObjectLisp.Proofs.Scope.Update

/-!
# New bindings

A definition binds a name that its frame does not bind yet, and it is seen from the scopes that see
the frame. A call binds the parameters of a closure in a new frame, which sees the bindings of the
scope around it under all other names.

Parameters are bound one after another, so the first one that has come before is reported
(`FirstRepeat`). That they are as many as the values is checked before, and a call of a closure
checks it before it makes a frame at all.
-/

namespace ObjectLisp

variable {host : Host} {s t : Store} {scope : FrameId} {params : List String}
  {values : List Value}

/-- The name is the first in the list that has come before. -/
def FirstRepeat (names : List String) (name : String) : Prop :=
  ∃ before after, names = before ++ name :: after ∧ before.Nodup ∧ name ∈ before

/-- There is only one such name. -/
theorem FirstRepeat.unique {names : List String} {name name' : String}
    (h : FirstRepeat names name) (h' : FirstRepeat names name') : name = name' := by
  -- A repeated name inside the different names before another one cannot be.
  have hinside {before l rest after : List String} {a b : String} (hmem : a ∈ before)
      (hnodup : (before ++ l).Nodup) (h : a :: rest = l ++ b :: after) : a = b := by
    cases l with
    | nil => exact (List.cons.inj h).1
    | cons c l =>
      obtain ⟨rfl, -⟩ := List.cons.inj h
      exact absurd rfl ((List.nodup_append.1 hnodup).2.2 a hmem a List.mem_cons_self)
  obtain ⟨before, after, rfl, hnodup, hmem⟩ := h
  obtain ⟨before', after', heq, hnodup', hmem'⟩ := h'
  rcases List.append_eq_append_iff.1 heq with ⟨l, rfl, hrest⟩ | ⟨l, rfl, hrest⟩
  · exact hinside hmem hnodup' hrest
  · exact (hinside hmem' hnodup hrest).symm

namespace Store

/-! ## Parameters -/

/-- After the different names `before`, all names are bound if no name comes twice, and else those
up to the first one that has come before. -/
theorem bindAll_cases {l : List (String × Value)} {d : Dict Value} {before : List String}
    (hd : ∀ name, d.contains name = true ↔ name ∈ before) (hbefore : before.Nodup) :
    ((before ++ l.map (·.1)).Nodup ∧ ∃ d', bindAll l d = .ok d')
    ∨ ∃ name, FirstRepeat (before ++ l.map (·.1)) name
      ∧ bindAll l d = .error (.redefinition name) := by
  induction l generalizing d before with
  | nil => exact .inl ⟨by simpa using hbefore, d, rfl⟩
  | cons e rest ih =>
    obtain ⟨key, v⟩ := e
    rw [bindAll]
    by_cases hkey : key ∈ before
    · rw [if_pos ((hd key).2 hkey)]
      exact .inr ⟨key, ⟨before, rest.map (·.1), rfl, hbefore, hkey⟩, rfl⟩
    · rw [if_neg fun h => hkey ((hd key).1 h)]
      have hd' (name : String) :
          (d.insert key v).contains name = true ↔ name ∈ before ++ [key] := by
        simp [Dict.contains_insert, hd, or_comm]
      have hbefore' : (before ++ [key]).Nodup := by
        simpa [List.nodup_append, hbefore] using fun a ha => ne_of_mem_of_not_mem ha hkey
      simpa using ih hd' hbefore'

/-- Parameters of which one has come before are not bound. -/
theorem exists_firstRepeat_of_bindParameters (hlength : params.length = values.length)
    (hrepeat : ¬ params.Nodup) :
    ∃ name, FirstRepeat params name
      ∧ bindParameters params values = .error (.redefinition name) := by
  have hnames : (params.zip values).map (·.1) = params := List.map_fst_zip (Nat.le_of_eq hlength)
  have hempty (name : String) : (∅ : Dict Value).contains name = true ↔ name ∈ [] :=
    ⟨nofun, nofun⟩
  have hcases := bindAll_cases (l := params.zip values) hempty List.nodup_nil
  rw [hnames, List.nil_append] at hcases
  rw [bindParameters, if_neg (not_not_intro hlength)]
  exact hcases.resolve_left fun h => hrepeat h.1

/-- The names of the bindings of parameters are the parameters, in order. -/
theorem perm_names_of_bindParameters {d : Dict Value}
    (h : bindParameters params values = .ok d) (hnodup : params.Nodup) : d.names.Perm params := by
  have hlength := length_eq_of_bindParameters h
  refine (List.perm_ext_iff_of_nodup d.nodup_names hnodup).2 fun name => ?_
  show name ∈ d.names ↔ name ∈ params
  rw [Dict.mem_names_iff, Dict.contains, get?_of_bindParameters h, ← not_iff_not,
    ← lookup_zip_eq_none_iff hlength, Bool.not_eq_true, Option.isSome_eq_false_iff,
    Option.isNone_iff_eq_none]

/-! ## New frames -/

/-- The chain of a frame of the store stays when the store grows. -/
theorem Extends.chain_eq (h : s.Extends t) (hscope : scope.index < s.frames.size) :
    t.chain scope = s.chain scope :=
  chain_congr fun _ hid => congrArg Frame.outer (h.frame_eq (Nat.lt_of_le_of_lt hid hscope))

theorem frame_addFrame_self (s : Store) (f : Frame) :
    (s.addFrame f).2.frame (s.addFrame f).1 = f := by
  rw [frame_addFrame]
  exact if_pos rfl

theorem depth_addFrame (hscope : scope.index < s.frames.size) (bindings : Dict Value) :
    (s.addFrame ⟨bindings, some scope⟩).2.depth (s.addFrame ⟨bindings, some scope⟩).1
      = s.depth scope + 1 := by
  have houter : scope.index < (s.addFrame ⟨bindings, some scope⟩).1.index := hscope
  rw [depth, chain, frame_addFrame_self, depth]
  simp only [if_pos houter, (extends_addFrame s _).chain_eq hscope, List.length_cons]

theorem extend_of_bindParameters {d : Dict Value} (h : bindParameters params values = .ok d)
    (scope : FrameId) : s.extend scope params values
      = (.ok (s.addFrame ⟨d, some scope⟩).1, (s.addFrame ⟨d, some scope⟩).2) := by
  rw [extend, h]

/-- In the store `t`, the frame is a new one inside the scope, and it binds each parameter to the
value in its place. -/
structure IsCallFrame (s : Store) (scope : FrameId) (params : List String) (values : List Value)
    (frame : FrameId) (t : Store) : Prop where
  new : frame.index = s.frames.size
  parameter : ∀ (i : Nat) p v, params[i]? = some p → values[i]? = some v → t.get frame p = .ok v
  other : ∀ x, x ∉ params → t.get frame x = s.get scope x
  depth : t.depth frame = s.depth scope + 1
  names : (t.localNames frame).Perm params
  sorted : (t.localNames frame).Pairwise (· < ·)

/-- As many values as different parameters make a frame. -/
theorem exists_isCallFrame (hscope : scope.index < s.frames.size)
    (hlength : params.length = values.length) (hnodup : params.Nodup) :
    ∃ frame t, s.extend scope params values = (.ok frame, t)
      ∧ s.IsCallFrame scope params values frame t := by
  obtain ⟨d, hd⟩ := exists_bindParameters hlength hnodup
  have hget := get?_addFrame hscope d
  refine ⟨(s.addFrame ⟨d, some scope⟩).1, (s.addFrame ⟨d, some scope⟩).2,
    extend_of_bindParameters hd scope, rfl, ?_, ?_, ?_, ?_, ?_⟩
  · intro i p v hp hv
    have hmem : (p, v) ∈ params.zip values :=
      List.mem_of_getElem? (List.getElem?_zip_eq_some.2 ⟨hp, hv⟩)
    have hnames : (params.zip values).map (·.1) = params := List.map_fst_zip (Nat.le_of_eq hlength)
    have hlookup := Dict.lookup_eq_some_of_mem (hnames.symm ▸ hnodup) hmem
    exact get_eq_ok_iff.2 (by rw [hget, get?_of_bindParameters hd, hlookup, Option.some_or])
  · intro x hx
    refine get_congr ?_
    rw [hget, get?_of_bindParameters hd, (lookup_zip_eq_none_iff hlength).2 hx, Option.none_or]
  · exact depth_addFrame hscope d
  · rw [localNames, frame_addFrame_self]
    exact perm_names_of_bindParameters hd hnodup
  · exact Dict.pairwise_names _

/-! ## Definitions and calls -/

/-- A definition fails where the frame binds the name, and else assigns to the frame. -/
theorem define_cases (s : Store) (scope : FrameId) (name : String) (v : Value) :
    (s.frame scope).bindings.contains name = true
      ∧ s.define scope name v = (.error (.redefinition name), s)
    ∨ (s.frame scope).bindings.contains name = false
      ∧ s.define scope name v = (.ok (), s.assign scope name v) := by
  rw [define]
  cases (s.frame scope).bindings.contains name with
  | true => exact .inl ⟨rfl, rfl⟩
  | false => exact .inr ⟨rfl, rfl⟩

/-- A call of a closure fails where the parameters cannot be bound, and else it evaluates the body
in the frame in which they are bound. -/
theorem apply_closure_of_length_eq (host : Host) (depth : Nat) {id : ClosureId} {args : List Value}
    (hlength : (s.closure id).params.length = args.length) :
    apply host depth (.closure id) args s
      = match s.extend (s.closure id).scope (s.closure id).params args with
        | (.ok frame, t) => evaluate host depth frame (s.closure id).body t
        | (.error e, t) => .error e t := by
  rw [apply, applyWith_closure, if_neg (not_not_intro hlength), extend]
  cases bindParameters (s.closure id).params args <;> rfl

/-- A definition fails exactly where the frame itself binds the name, and then it changes nothing;
else the name has the new value in the scopes that see the frame, and all other values are as
before. A new frame of parameters needs as many values and no parameter twice, which is checked in
this order. It has the parameters as its names, and it sees the scope around it under all others.
No frame that was there is changed. A call of a closure checks the number of its arguments, and
reports the closure, before it binds the parameters in this way. -/
theorem new_bindings (hs : s.Reachable host) (hscope : scope.index < s.frames.size) :
    (∀ name v,
      (∀ e, (s.define scope name v).1 = .error e
        ↔ e = .redefinition name ∧ (s.frame scope).bindings.contains name = true)
      ∧ (∀ e, (s.define scope name v).1 = .error e → (s.define scope name v).2 = s)
      ∧ ∀ t, s.define scope name v = (.ok (), t) →
        (∀ scope' x, (x = name ∧ s.Sees name scope' scope) → t.get scope' x = .ok v)
        ∧ ∀ scope' x, ¬ (x = name ∧ s.Sees name scope' scope) →
          t.get scope' x = s.get scope' x)
    ∧ (∀ params values, s.Extends (s.extend scope params values).2
      ∧ (params.length ≠ values.length → s.extend scope params values
        = (.error (.arityMismatch ("frame (" ++ " ".intercalate params ++ ")") params.length
          values.length), s))
      ∧ (params.length = values.length → ¬ params.Nodup → ∃ name, FirstRepeat params name
        ∧ s.extend scope params values = (.error (.redefinition name), s))
      ∧ (params.length = values.length → params.Nodup →
        ∃ frame t, s.extend scope params values = (.ok frame, t)
          ∧ s.IsCallFrame scope params values frame t))
    ∧ ∀ depth id args,
      ((s.closure id).params.length ≠ args.length → apply host depth (.closure id) args s
        = .error (.arityMismatch (s.text (.closure id)) (s.closure id).params.length args.length) s)
      ∧ ((s.closure id).params.length = args.length → ¬ (s.closure id).params.Nodup →
        ∃ name, FirstRepeat (s.closure id).params name
          ∧ apply host depth (.closure id) args s = .error (.redefinition name) s)
      ∧ ((s.closure id).params.length = args.length → (s.closure id).params.Nodup →
        ∃ frame t, s.extend (s.closure id).scope (s.closure id).params args = (.ok frame, t)
          ∧ apply host depth (.closure id) args s
            = evaluate host depth frame (s.closure id).body t) := by
  have hrepeat (scope : FrameId) {params : List String} {values : List Value}
      (hlength : params.length = values.length) (h : ¬ params.Nodup) :
      ∃ name, FirstRepeat params name
        ∧ s.extend scope params values = (.error (.redefinition name), s) := by
    obtain ⟨name, hname, herror⟩ := exists_firstRepeat_of_bindParameters hlength h
    exact ⟨name, hname, by rw [extend, herror]⟩
  refine ⟨fun name v => ?_, fun params values => ?_, fun depth id args => ?_⟩
  · rcases s.define_cases scope name v with ⟨hbinds, hdefine⟩ | ⟨hfree, hdefine⟩
    · rw [hdefine, hbinds]
      refine ⟨fun e => ⟨?_, ?_⟩, fun e _ => rfl, nofun⟩
      · rintro ⟨⟩
        exact ⟨rfl, rfl⟩
      · rintro ⟨rfl, -⟩
        rfl
    · rw [hdefine, hfree]
      refine ⟨fun e => ⟨nofun, nofun⟩, nofun, ?_⟩
      rintro _ ⟨⟩
      refine ⟨?_, fun scope' x h => get_congr (get?_assign_of_not_sees hs.nested hscope v h)⟩
      rintro scope' _ ⟨rfl, hsees⟩
      exact get_eq_ok_iff.2 (get?_assign_of_sees hs.nested hscope v hsees)
  · refine ⟨s.extends_extend _ _ _, fun hlength => ?_, hrepeat scope, exists_isCallFrame hscope⟩
    rw [extend, bindParameters, if_pos hlength]
  · refine ⟨fun hlength => ?_, fun hlength h => ?_, fun hlength h => ?_⟩
    · rw [apply, applyWith_closure, if_pos hlength]
    · obtain ⟨name, hname, hextend⟩ := hrepeat (s.closure id).scope hlength h
      exact ⟨name, hname, by rw [apply_closure_of_length_eq host depth hlength, hextend]⟩
    · obtain ⟨d, hd⟩ := exists_bindParameters hlength h
      have hextend := extend_of_bindParameters (s := s) hd (s.closure id).scope
      exact ⟨_, _, hextend, by rw [apply_closure_of_length_eq host depth hlength, hextend]⟩

/-- A closure with a repeated parameter, in the middle one of three frames. -/
def repeatedParameter : Store :=
  (shadowedTwice.addClosure ⟨["p", "q", "p"], .var "p", ⟨1⟩⟩).2

/-- A definition in the middle frame is seen from there, but neither from the top level nor from the
innermost frame, which has a binding of its own. A frame around two parameters sees the names of the
middle frame. The closure counts its arguments before it binds them. -/
theorem new_bindings_repeatedParameter :
    (∃ t, repeatedParameter.define ⟨1⟩ "x" (.keyword "c") = (.ok (), t)
      ∧ t.get ⟨1⟩ "x" = .ok (.keyword "c")
      ∧ t.get ⟨0⟩ "x" = repeatedParameter.get ⟨0⟩ "x"
      ∧ t.get ⟨2⟩ "x" = repeatedParameter.get ⟨2⟩ "x")
    ∧ (∃ frame t, repeatedParameter.extend ⟨1⟩ ["q", "p"] [.bool true, .bool false]
        = (.ok frame, t)
      ∧ t.get frame "q" = .ok (.bool true) ∧ t.get frame "y" = repeatedParameter.get ⟨1⟩ "y"
      ∧ t.depth frame = 3)
    ∧ apply .echo 1 (.closure ⟨0⟩) [.null] repeatedParameter
      = .error (.arityMismatch "<closure (p q p)>" 3 1) repeatedParameter
    ∧ apply .echo 1 (.closure ⟨0⟩) [.null, .null, .null] repeatedParameter
      = .error (.redefinition "p") repeatedParameter := by
  have hreachable : repeatedParameter.Reachable .echo := by
    refine .tail (reachable_shadowedTwice .echo) (.addClosure ⟨?_, ?_⟩)
    · decide +kernel
    · exact Expr.isValid_of_values_eq_nil rfl
  have hscope : (1 : Nat) < repeatedParameter.frames.size := by decide +kernel
  obtain ⟨hdefine, hextend, happly⟩ := @new_bindings .echo repeatedParameter ⟨1⟩ hreachable hscope
  refine ⟨?_, ?_, ?_, ?_⟩
  · obtain ⟨-, -, hlaw⟩ := hdefine "x" (.keyword "c")
    obtain ⟨hseen, hhidden⟩ := hlaw _ rfl
    refine ⟨_, rfl, hseen ⟨1⟩ "x" ⟨rfl, sees_self ..⟩, hhidden ⟨0⟩ "x" ?_, hhidden ⟨2⟩ "x" ?_⟩
    · rintro ⟨-, hsees⟩
      rcases sees_iff.1 hsees with h | ⟨hfree, -⟩
      · nomatch h
      · exact absurd hfree (by decide +kernel)
    · rintro ⟨-, hsees⟩
      rcases sees_iff.1 hsees with h | ⟨hfree, -⟩
      · nomatch h
      · exact absurd hfree (by decide +kernel)
  · obtain ⟨frame, t, hframe, hcall⟩ :=
      (hextend ["q", "p"] [.bool true, .bool false]).2.2.2 rfl (by decide)
    refine ⟨frame, t, hframe, hcall.parameter 0 "q" _ rfl rfl, hcall.other "y" (by decide), ?_⟩
    rw [hcall.depth]
    decide +kernel
  · have htext : repeatedParameter.text (.closure ⟨0⟩) = "<closure (p q p)>" := by decide +kernel
    exact htext ▸ (happly 1 ⟨0⟩ [.null]).1 (by decide +kernel)
  · obtain ⟨name, hname, happly⟩ :=
      (happly 1 ⟨0⟩ [.null, .null, .null]).2.1 rfl (by decide +kernel)
    have hp : FirstRepeat ["p", "q", "p"] "p" := ⟨["p", "q"], [], rfl, by decide, by decide⟩
    obtain rfl : name = "p" := hname.unique hp
    exact happly

end Store

end ObjectLisp
