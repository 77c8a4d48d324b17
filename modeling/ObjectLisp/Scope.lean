import ObjectLisp.Error
import ObjectLisp.Store.Text

/-!
# Scopes

A scope is named by its innermost frame. Names are looked up along the `chain` of frames from
there outwards. A frame is always younger than the frame around it, so the chain follows only
links to older frames and ends.

Binding a name never replaces a binding of the same frame; only `update` changes one, in the nearest
frame that has it. An operation that fails returns the store as it was.
-/

namespace ObjectLisp.Store

/-! ## Looking up names -/

/-- The frames from `id` outwards. -/
def chain (s : Store) (id : FrameId) : List FrameId :=
  id :: match (s.frame id).outer with
    | none => []
    | some outer => if outer.index < id.index then s.chain outer else []
termination_by id.index

/-- The nearest frame that binds a name. -/
def owner? (s : Store) (scope : FrameId) (name : String) : Option FrameId :=
  (s.chain scope).find? fun id => (s.frame id).bindings.contains name

/-- The value of the nearest binding of a name. -/
def get? (s : Store) (scope : FrameId) (name : String) : Option Value :=
  (s.chain scope).findSome? fun id => (s.frame id).bindings.get? name

/-- The value of a name that has to be bound. -/
def get (s : Store) (scope : FrameId) (name : String) : Except RuntimeError Value :=
  match s.get? scope name with
  | some v => .ok v
  | none => .error (.unboundVariable name)

/-- Whether a name is bound in a frame or around it. -/
def has (s : Store) (scope : FrameId) (name : String) : Bool := (s.owner? scope name).isSome

/-- The number of frames from a frame outwards. -/
def depth (s : Store) (scope : FrameId) : Nat := (s.chain scope).length

/-- The names bound in a frame itself, in order. -/
def localNames (s : Store) (scope : FrameId) : List String := (s.frame scope).bindings.names

/-- The shape of a scope: the names of its frame and its depth. -/
def inspectScope (s : Store) (scope : FrameId) : String :=
  "Environment \x7b locals: " ++ quotedList (s.localNames scope) ++ ", depth: "
    ++ toString (s.depth scope) ++ " \x7d"

/-! ## Binding names -/

/-- Set a binding of a frame, whether there was one or not. -/
def assign (s : Store) (id : FrameId) (name : String) (v : Value) : Store :=
  let f := s.frame id
  s.setFrame id { f with bindings := f.bindings.insert name v }

/-- Bind a name in a frame that does not bind it yet. -/
def define (s : Store) (scope : FrameId) (name : String) (v : Value) :
    Except RuntimeError Unit × Store :=
  if (s.frame scope).bindings.contains name then (.error (.redefinition name), s)
  else (.ok (), s.assign scope name v)

/-- Change the nearest binding of a name. -/
def update (s : Store) (scope : FrameId) (name : String) (v : Value) :
    Except RuntimeError Unit × Store :=
  match s.owner? scope name with
  | none => (.error (.unboundVariable name), s)
  | some id => (.ok (), s.assign id name v)

/-! ## New frames -/

/-- Add bindings one after another, each of a name that is not bound yet. -/
def bindAll : List (String × Value) → Dict Value → Except RuntimeError (Dict Value)
  | [], d => .ok d
  | (name, v) :: rest, d =>
    if d.contains name then .error (.redefinition name) else bindAll rest (d.insert name v)

/-- The bindings of each parameter to the value in its place. -/
def bindParameters (params : List String) (values : List Value) :
    Except RuntimeError (Dict Value) :=
  if params.length ≠ values.length then
    .error (.arityMismatch ("frame (" ++ " ".intercalate params ++ ")") params.length values.length)
  else bindAll (params.zip values) ∅

/-- A new frame inside `scope` that binds each parameter to the value in its place. -/
def extend (s : Store) (scope : FrameId) (params : List String) (values : List Value) :
    Except RuntimeError FrameId × Store :=
  match bindParameters params values with
  | .error e => (.error e, s)
  | .ok bindings =>
    let (id, s) := s.addFrame ⟨bindings, some scope⟩
    (.ok id, s)

/-- A new outermost frame. -/
def addRoot (s : Store) (bindings : Dict Value) : FrameId × Store := s.addFrame ⟨bindings, none⟩

end ObjectLisp.Store
