import ObjectLisp.Dict
import ObjectLisp.Expr

/-!
# The store

Frames, closures and objects are shared: several values may name the same one, and they see each
other's changes. The `Store` holds all of them, and identities are places in it. New ones are
added at the end, so an identity stays valid for good.

Reading an identity that was never given out yields an empty frame or object. Nothing that a program
can do leads there, but every operation has an answer for it.
-/

namespace ObjectLisp

/-- One frame of a scope: its bindings and the frame around it. -/
structure Frame where
  bindings : Dict Value
  outer : Option FrameId

instance : Inhabited Frame := ⟨⟨∅, none⟩⟩

/-- A lambda together with the frame in which it was evaluated. -/
structure Closure where
  params : List String
  body : Expr
  scope : FrameId

instance : Inhabited Closure := ⟨⟨[], default, ⟨0⟩⟩⟩

/-- Own fields, and the object from which missing ones are inherited. -/
structure Object where
  fields : Dict Value
  prototype : Option ObjectId

instance : Inhabited Object := ⟨⟨∅, none⟩⟩

/-- An object's prototype as a value. -/
def Object.prototypeValue (o : Object) : Value :=
  match o.prototype with
  | none => .null
  | some id => .object id

/-- All frames, closures and objects. -/
structure Store where
  frames : Array Frame
  closures : Array Closure
  objects : Array Object

namespace Store

/-- Nothing has been created yet. -/
def empty : Store := ⟨#[], #[], #[]⟩

instance : Inhabited Store := ⟨empty⟩

/-! ## Reading -/

/-- The frame of an identity. -/
def frame (s : Store) (id : FrameId) : Frame := s.frames.getD id.index default

/-- The closure of an identity. -/
def closure (s : Store) (id : ClosureId) : Closure := s.closures.getD id.index default

/-- The object of an identity. -/
def object (s : Store) (id : ObjectId) : Object := s.objects.getD id.index default

/-! ## Adding -/

/-- Add a frame. -/
def addFrame (s : Store) (f : Frame) : FrameId × Store :=
  (⟨s.frames.size⟩, { s with frames := s.frames.push f })

/-- Add a closure. -/
def addClosure (s : Store) (c : Closure) : ClosureId × Store :=
  (⟨s.closures.size⟩, { s with closures := s.closures.push c })

/-- Add an object. -/
def addObject (s : Store) (o : Object) : ObjectId × Store :=
  (⟨s.objects.size⟩, { s with objects := s.objects.push o })

/-! ## Changing -/

/-- Replace a frame. -/
def setFrame (s : Store) (id : FrameId) (f : Frame) : Store :=
  { s with frames := s.frames.setIfInBounds id.index f }

/-- Replace an object. -/
def setObject (s : Store) (id : ObjectId) (o : Object) : Store :=
  { s with objects := s.objects.setIfInBounds id.index o }

/-! ## The objects there are -/

/-- The identities of all objects. -/
def objectIds (s : Store) : List ObjectId := (List.range s.objects.size).map ObjectId.mk

/-- An identity belongs to an object exactly when it is below the number of objects. -/
theorem mem_objectIds {s : Store} {id : ObjectId} :
    id ∈ s.objectIds ↔ id.index < s.objects.size := by
  simp only [objectIds, List.mem_map, List.mem_range]
  constructor
  · rintro ⟨i, hi, rfl⟩
    exact hi
  · intro h
    exact ⟨id.index, h, rfl⟩

/-- All pairs of objects. -/
def objectPairs (s : Store) : List (ObjectId × ObjectId) :=
  s.objectIds.flatMap fun x => s.objectIds.map fun y => (x, y)

/-- A pair is listed exactly when both its members are. -/
theorem mem_objectPairs {s : Store} {x y : ObjectId} :
    (x, y) ∈ s.objectPairs ↔ x ∈ s.objectIds ∧ y ∈ s.objectIds := by
  simp [objectPairs]

end Store

end ObjectLisp
