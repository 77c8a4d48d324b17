import ObjectLisp.Scope

/-!
# Registries of primitives

A registry holds primitives by name. Its primitives become bindings in one of two ways: `rootFrame`
makes a new outermost frame of them, and `install` adds them to a frame that exists, in the order of
their names and up to the first name that the frame already binds.
-/

namespace ObjectLisp

/-- Primitives by name. -/
structure Registry where
  primitives : Dict Primitive

namespace Registry

/-- No primitives. -/
def empty : Registry := ⟨∅⟩

/-- Add a primitive under its name, in place of an earlier one. -/
def register (r : Registry) (p : Primitive) : Registry := ⟨r.primitives.insert p.name p⟩

/-- Add primitives one after another. -/
def registerAll (r : Registry) (ps : List Primitive) : Registry := ps.foldl register r

/-- The primitive of a name. -/
def get? (r : Registry) (name : String) : Option Primitive := r.primitives.get? name

/-- Whether a name has a primitive. -/
def contains (r : Registry) (name : String) : Bool := r.primitives.contains name

/-- The names in order. -/
def names (r : Registry) : List String := r.primitives.names

/-- The number of primitives. -/
def size (r : Registry) : Nat := r.primitives.size

/-! ## The standard primitives -/

/-- Arithmetic and the test for zero. -/
def arithmetic : List Primitive :=
  [.arithmetic .add, .arithmetic .subtract, .arithmetic .multiply, .arithmetic .divide, .isZero]

/-- Object construction and field access. -/
def objects : List Primitive := [.makeObject, .field]

/-- The class constructors. -/
def classes : List Primitive := [.animal, .dog, .cat]

/-- All primitives of the language. -/
def standard : Registry := empty.registerAll (arithmetic ++ objects ++ classes)

/-! ## Bindings -/

/-- Each primitive as a value under its name. -/
def bindings (r : Registry) : List (String × Value) :=
  r.primitives.entries.map fun e => (e.1, .primitive e.2)

/-- A new outermost frame that binds every primitive. -/
def rootFrame (r : Registry) (s : Store) : FrameId × Store := s.addRoot (Dict.ofList r.bindings)

/-- Bind names in a frame in order, up to the first that is bound already. What was bound before it
stays. -/
def defineAll (scope : FrameId) : List (String × Value) → Store → Except RuntimeError Unit × Store
  | [], s => (.ok (), s)
  | (name, v) :: rest, s =>
    match s.define scope name v with
    | (.error e, s) => (.error e, s)
    | (.ok (), s) => defineAll scope rest s

/-- Bind every primitive in a frame. -/
def install (r : Registry) (scope : FrameId) (s : Store) : Except RuntimeError Unit × Store :=
  defineAll scope r.bindings s

end Registry

end ObjectLisp
