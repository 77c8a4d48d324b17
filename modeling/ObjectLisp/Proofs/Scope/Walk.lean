import ObjectLisp.Proofs.Scope.Update

/-!
# Walks outwards

Names are looked up, and frames are counted, by a walk from a frame to the frames around it.
`Store.Walks` is such a walk with no bound and no memory of where it has been: it follows the links
wherever they lead, and one that goes round in a circle has no end. A store as a whole has circles,
since a frame may bind a closure that was made in it.

In a `Nested` store each link leads to an older frame. So every walk ends, whatever it looks for
(`Store.Nested.walks`), and it comes to the frames of `Store.chain` and to no frame twice. Links are
made together with their frames and never changed, so a frame stays in its place for good.
-/

namespace ObjectLisp.Store

variable {β : Type} {host : Host} {s t : Store} {scope id outer : FrameId}
  {look : FrameId → Option β} {path path' : List FrameId} {r r' : Option β}

/-! ## Walks -/

/-- A walk from a frame outwards that ends: the frames it comes to, and the first answer that is
found at one of them. There is none if it ends at an outermost frame without an answer. -/
inductive Walks (s : Store) (look : FrameId → Option β) :
    FrameId → List FrameId → Option β → Prop
  | found {id : FrameId} {b : β} (h : look id = some b) : Walks s look id [id] (some b)
  | outermost {id : FrameId} (hlook : look id = none) (houter : (s.frame id).outer = none) :
      Walks s look id [id] none
  | outward {id outer : FrameId} {path : List FrameId} {r : Option β} (hlook : look id = none)
      (houter : (s.frame id).outer = some outer) (h : Walks s look outer path r) :
      Walks s look id (id :: path) r

/-- Looking for the value of a name. -/
def valueAt (s : Store) (name : String) (id : FrameId) : Option Value :=
  (s.frame id).bindings.get? name

/-- Looking for a frame that binds a name. -/
def ownerAt (s : Store) (name : String) (id : FrameId) : Option FrameId :=
  if (s.frame id).bindings.contains name then some id else none

/-- Looking for nothing, and so for the outermost frame. -/
def nothingAt (_ : FrameId) : Option Unit := none

/-- A walk has one end. -/
theorem Walks.unique (h : s.Walks look scope path r) (h' : s.Walks look scope path' r') :
    path = path' ∧ r = r' := by
  -- At each frame the answer there and its link decide how the walk goes on.
  induction h generalizing path' with
  | found h =>
    cases h' with
    | found h' => exact ⟨rfl, h.symm.trans h'⟩
    | outermost hlook | outward hlook => nomatch h.symm.trans hlook
  | outermost hlook houter =>
    cases h' with
    | found h' => nomatch hlook.symm.trans h'
    | outermost => exact ⟨rfl, rfl⟩
    | outward _ houter' => nomatch houter.symm.trans houter'
  | outward hlook houter _ ih =>
    cases h' with
    | found h' => nomatch hlook.symm.trans h'
    | outermost _ houter' => nomatch houter.symm.trans houter'
    | outward _ houter' h' =>
      cases houter.symm.trans houter'
      obtain ⟨rfl, rfl⟩ := ih h'
      exact ⟨rfl, rfl⟩

/-! ## Chains of nested stores -/

namespace Nested

/-- The frames of a chain are those that the links lead to. -/
theorem getElem?_chain (hs : s.Nested) (scope : FrameId) (n : Nat) :
    (s.chain scope)[n]? = s.enclosing scope n := by
  induction n generalizing scope with
  | zero => rw [hs.chain_eq, enclosing, List.getElem?_cons_zero]
  | succ n ih =>
    rw [hs.chain_eq, enclosing, List.getElem?_cons_succ]
    cases (s.frame scope).outer with
    | none => rfl
    | some outer => exact ih outer

/-- No frame of a chain is younger than the first one. -/
theorem le_of_mem_chain (hs : s.Nested) {scope : FrameId} (h : id ∈ s.chain scope) :
    id.index ≤ scope.index := by
  induction scope using hs.induction with
  | step scope ih =>
    rw [hs.chain_eq] at h
    rcases List.mem_cons.1 h with rfl | h
    · exact Nat.le_refl _
    · cases houter : (s.frame scope).outer with
      | none =>
        rw [houter] at h
        nomatch h
      | some outer =>
        rw [houter] at h
        exact Nat.le_trans (ih outer houter h) (Nat.le_of_lt (hs scope outer houter))

/-- A chain has no frame twice. -/
theorem nodup_chain (hs : s.Nested) (scope : FrameId) : (s.chain scope).Nodup := by
  induction scope using hs.induction with
  | step scope ih =>
    rw [hs.chain_eq]
    cases houter : (s.frame scope).outer with
    | none => exact List.nodup_cons.2 ⟨List.not_mem_nil, List.nodup_nil⟩
    | some outer =>
      refine List.nodup_cons.2 ⟨fun h => ?_, ih outer houter⟩
      exact absurd (hs.le_of_mem_chain h) (Nat.not_le_of_lt (hs scope outer houter))

/-- The links lead to an outermost frame, and the depth counts the frames on the way. -/
theorem exists_outermost (hs : s.Nested) (scope : FrameId) :
    ∃ n root, s.enclosing scope n = some root ∧ (s.frame root).outer = none
      ∧ s.depth scope = n + 1 := by
  induction scope using hs.induction with
  | step scope ih =>
    cases houter : (s.frame scope).outer with
    | none =>
      refine ⟨0, scope, rfl, houter, ?_⟩
      rw [depth, hs.chain_eq, houter]
      rfl
    | some outer =>
      obtain ⟨n, root, hroot, hend, hdepth⟩ := ih outer houter
      refine ⟨n + 1, root, ?_, hend, ?_⟩
      · rw [enclosing, houter, Option.bind_some, hroot]
      · rw [depth, hs.chain_eq, houter, List.length_cons]
        exact congrArg (· + 1) hdepth

/-- Every walk ends, with the first answer on the chain. -/
theorem walks (hs : s.Nested) (look : FrameId → Option β) (scope : FrameId) :
    ∃ path, s.Walks look scope path ((s.chain scope).findSome? look) := by
  induction scope using hs.induction with
  | step scope ih =>
    rw [hs.chain_eq, List.findSome?_cons]
    cases hlook : look scope with
    | some b => exact ⟨_, .found hlook⟩
    | none =>
      cases houter : (s.frame scope).outer with
      | none => exact ⟨_, .outermost hlook houter⟩
      | some outer =>
        obtain ⟨path, h⟩ := ih outer houter
        exact ⟨_, .outward hlook houter h⟩

/-- The walk that looks for nothing comes to all frames of the chain. -/
theorem walks_nothing (hs : s.Nested) (scope : FrameId) :
    s.Walks nothingAt scope (s.chain scope) none := by
  induction scope using hs.induction with
  | step scope ih =>
    rw [hs.chain_eq]
    cases houter : (s.frame scope).outer with
    | none => exact .outermost rfl houter
    | some outer => exact .outward rfl houter (ih outer houter)

end Nested

/-! ## What walks find -/

/-- The first owner along the chain is the owner. -/
theorem findSome?_ownerAt (s : Store) (scope : FrameId) (name : String) :
    (s.chain scope).findSome? (s.ownerAt name) = s.owner? scope name := by
  rw [owner?, List.find?_eq_findSome?_guard]
  rfl

/-! ## Links stay -/

variable {allowed : Primitive → Prop}

/-- The frames of the one store are in the other one, inside the same frames. -/
def KeepsLinks (s t : Store) : Prop :=
  ∀ id : FrameId, id.index < s.frames.size →
    id.index < t.frames.size ∧ (t.frame id).outer = (s.frame id).outer

/-- A store keeps its own links. -/
theorem KeepsLinks.refl (s : Store) : s.KeepsLinks s := fun _ hid => ⟨hid, rfl⟩

/-- Links that are kept twice are kept. -/
theorem KeepsLinks.trans {u : Store} (h : s.KeepsLinks t) (h' : t.KeepsLinks u) :
    s.KeepsLinks u := by
  intro id hid
  obtain ⟨hid, houter⟩ := h id hid
  obtain ⟨hid, houter'⟩ := h' id hid
  exact ⟨hid, houter'.trans houter⟩

/-- The same frames have the same links. -/
theorem KeepsLinks.of_frames_eq (h : t.frames = s.frames) : s.KeepsLinks t :=
  fun id hid => ⟨h ▸ hid, by rw [frame, frame, h]⟩

/-- A step of a program makes frames and changes bindings, but no links. -/
theorem Step.keepsLinks (h : s.Step allowed t) : s.KeepsLinks t := by
  cases h with
  | @frame f houter =>
    intro id hid
    have hext := s.extends_addFrame f
    exact ⟨hext.frame_lt hid, by rw [hext.frame_eq hid]⟩
  | closure | object | kindOfAnimal => exact .of_frames_eq rfl
  | binding id name v =>
    intro f hf
    refine ⟨?_, s.outer_assign id name v f⟩
    simpa [assign, setFrame] using hf

/-- Steps keep the links between frames. -/
theorem Steps.keepsLinks (h : s.Steps allowed t) : s.KeepsLinks t := by
  induction h with
  | refl => exact .refl s
  | tail _ hstep ih => exact ih.trans hstep.keepsLinks

/-- So does every operation. -/
theorem Operation.keepsLinks (h : s.Operation host t) (hs : s.WellFormed fun _ => True) :
    s.KeepsLinks t := by
  rcases (h.steps_or_frames_eq hs).1 with hsteps | hframes
  · exact Steps.keepsLinks hsteps
  · exact .of_frames_eq hframes

/-- All operations on a reachable store leave the links as they are. -/
theorem Reachable.keepsLinks (hs : s.Reachable host)
    (h : Relation.ReflTransGen (Operation host) s t) : s.KeepsLinks t := by
  induction h with
  | refl => exact .refl s
  | tail hst hstep ih =>
    have ht : Reachable host _ := Relation.ReflTransGen.trans hs hst
    exact ih.trans (hstep.keepsLinks ht.wellFormed_and_nested.1)

/-- The frames that the links of a scope lead to are in the store. -/
theorem lt_of_enclosing (hs : s.Nested) (hscope : scope.index < s.frames.size) {n : Nat}
    (h : s.enclosing scope n = some id) : id.index < s.frames.size := by
  rw [← hs.getElem?_chain] at h
  exact Nat.lt_of_le_of_lt (hs.le_of_mem_chain (List.mem_of_getElem? h)) hscope

/-! ## The law of the walks -/

/-- In a reachable store the links lead from every frame to an outermost one, and to no frame twice,
and the depth of the frame is the number of frames on the way. So a walk outwards ends, whatever it
looks for. The value of a name, its owner, and the depth are what walks find that look for a value,
for an owner, and for nothing. Later operations change neither the frame around a frame nor its
depth. -/
theorem outward_walks_end (hs : s.Reachable host) (hscope : scope.index < s.frames.size) :
    (∃ n root, s.enclosing scope n = some root ∧ (s.frame root).outer = none
      ∧ s.depth scope = n + 1)
    ∧ (∀ i id, s.enclosing scope i = some id → id.index < s.frames.size
      ∧ ∀ j, s.enclosing scope j = some id → i = j)
    ∧ (∀ (β : Type) (look : FrameId → Option β), ∃ path r, s.Walks look scope path r)
    ∧ (∀ name path r, s.Walks (s.valueAt name) scope path r →
      s.get scope name = r.elim (.error (.unboundVariable name)) .ok)
    ∧ (∀ name path r, s.Walks (s.ownerAt name) scope path r →
      s.has scope name = r.isSome
      ∧ ∀ v, s.update scope name v
        = r.elim (.error (.unboundVariable name), s) fun id => (.ok (), s.assign id name v))
    ∧ (∀ path r, s.Walks nothingAt scope path r → s.depth scope = path.length)
    ∧ ∀ t, Relation.ReflTransGen (Operation host) s t →
      scope.index < t.frames.size ∧ (t.frame scope).outer = (s.frame scope).outer
      ∧ t.depth scope = s.depth scope := by
  have hnested := hs.nested
  refine ⟨hnested.exists_outermost scope, fun i id hi => ⟨lt_of_enclosing hnested hscope hi, ?_⟩,
    fun β look => ?_, fun name path r h => ?_, fun name path r h => ?_, fun path r h => ?_,
    fun t ht => ?_⟩
  · -- The chain has no frame twice, so a frame has one distance.
    intro j hj
    rw [← hnested.getElem?_chain] at hi hj
    obtain ⟨hlt, heq⟩ := List.getElem?_eq_some_iff.1 hi
    exact (List.getElem?_inj hlt (hnested.nodup_chain scope)).1 (hi.trans hj.symm)
  · obtain ⟨path, h⟩ := hnested.walks look scope
    exact ⟨path, _, h⟩
  · obtain ⟨path', h'⟩ := hnested.walks (s.valueAt name) scope
    obtain rfl := (h.unique h').2
    change s.get scope name = (s.get? scope name).elim _ _
    rw [get]
    cases s.get? scope name <;> rfl
  · obtain ⟨path', h'⟩ := hnested.walks (s.ownerAt name) scope
    obtain rfl := (h.unique h').2
    rw [findSome?_ownerAt]
    refine ⟨rfl, fun v => ?_⟩
    rw [update]
    cases s.owner? scope name <;> rfl
  · obtain rfl := (h.unique (hnested.walks_nothing scope)).1
    rfl
  · -- The chain reads links only, and those of older frames are kept.
    have hlinks := hs.keepsLinks ht
    refine ⟨(hlinks scope hscope).1, (hlinks scope hscope).2, ?_⟩
    rw [depth, depth]
    refine congrArg List.length (chain_congr fun id hid => ?_)
    exact (hlinks id (Nat.lt_of_le_of_lt hid hscope)).2

/-- A top level with a function that was made there, and a frame around a parameter inside it, which
is bound to the function too. -/
def boundWhereMade : Store :=
  ((((empty.addRoot (.ofList [])).2.addClosure ⟨["x"], .var "f", ⟨0⟩⟩).2.define ⟨0⟩ "f"
    (.closure ⟨0⟩)).2.extend ⟨0⟩ ["x"] [.closure ⟨0⟩]).2

/-- The store of two nested scopes is reachable. -/
theorem reachable_boundWhereMade (host : Host) : boundWhereMade.Reachable host := by
  refine .tail (.tail (.tail (.single (.addRoot ?_)) (.addClosure ⟨?_, ?_⟩)) (.define ?_ "f" ?_))
    (.extend ?_ ["x"] ?_)
  · simp
  · decide +kernel
  · exact Expr.isValid_of_values_eq_nil rfl
  · decide +kernel
  · exact Nat.zero_lt_one
  · decide +kernel
  · intro v hv
    obtain rfl := List.mem_singleton.1 hv
    exact Nat.zero_lt_one

/-- A name that nothing binds is looked for in vain, though the store has a circle, and the inner
frame has the top level around it, whatever is done later. -/
theorem outward_walks_end_boundWhereMade :
    (∃ path r, boundWhereMade.Walks (boundWhereMade.valueAt "g") ⟨1⟩ path r)
    ∧ ∀ t, Relation.ReflTransGen (Operation .echo) boundWhereMade t →
      (t.frame ⟨1⟩).outer = some ⟨0⟩ ∧ t.depth ⟨1⟩ = 2 := by
  have hscope : (1 : Nat) < boundWhereMade.frames.size := by decide +kernel
  have houter : (boundWhereMade.frame ⟨1⟩).outer = some ⟨0⟩ := by decide +kernel
  have hdepth : boundWhereMade.depth ⟨1⟩ = 2 := by decide +kernel
  obtain ⟨-, -, hends, -, -, -, hlater⟩ :=
    @outward_walks_end .echo _ ⟨1⟩ (reachable_boundWhereMade .echo) hscope
  refine ⟨hends _ _, fun t ht => ?_⟩
  obtain ⟨-, hframe, ht⟩ := hlater t ht
  exact ⟨hframe.trans houter, ht.trans hdepth⟩

end ObjectLisp.Store
