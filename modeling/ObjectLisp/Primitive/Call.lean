import ObjectLisp.Action

/-!
# Calling primitives

A primitive of fixed arity checks the number of its arguments first, then their kinds from left to
right, and only then does its work, so a refused call creates nothing.

The class constructors build plain objects: a dog or a cat has two fields of its own and inherits
the rest from a new animal.

What a host-supplied function does is not known here. A `Host` says which of its arguments it hands
back, if any; that is all such a function may do.
-/

namespace ObjectLisp

/-- Which argument, counted from zero, a host function of the given name and identity hands back. -/
abbrev Host : Type := Store → String → HostId → List Value → Option Nat

/-- Every host function hands back its first argument. -/
def Host.echo : Host := fun _ _ _ _ => some 0

namespace Primitive

/-! ## Arguments -/

/-- The content of the argument at a position, which has to be of the expected kind. -/
def argument {α : Type} (p : Primitive) (position : Nat) (expected : ArgumentType)
    (content : Value → Option α) (v : Value) : Action α :=
  match content v with
  | some a => pure a
  | none => .failWith fun s => .argumentType p.name position expected (s.text v)

/-- The number at a position. -/
def number (p : Primitive) (position : Nat) : Value → Action Float :=
  p.argument position .number Value.number?

/-- The truth value at a position. -/
def boolean (p : Primitive) (position : Nat) : Value → Action Bool :=
  p.argument position .boolean Value.bool?

/-- The keyword at a position. -/
def keyword (p : Primitive) (position : Nat) : Value → Action String :=
  p.argument position .keyword Value.keyword?

/-- The object at a position. -/
def object (p : Primitive) (position : Nat) : Value → Action ObjectId :=
  p.argument position .object Value.object?

/-! ## Objects -/

/-- Put an object in the store. -/
def new (o : Object) : Action Value := do
  return .object (← .create (·.addObject o))

/-- A plain animal. -/
def plainAnimal (furry : Bool) : Object :=
  .ofFields [("legs", .number 4), ("furry", .bool furry), ("noise", .keyword "grunt")]

/-- A new object with the given fields that inherits from a new animal. -/
def newKindOfAnimal (fields : List (String × Value)) (furry : Bool) : Action Value := do
  let parent ← .create (·.addObject (plainAnimal furry))
  new { Object.ofFields fields with prototype := some parent }

/-- A new kind of animal, from a number that goes into its fields and from whether it is furry. -/
def kindOfAnimal (p : Primitive) (fields : Float → List (String × Value)) (a b : Value) :
    Action Value := do
  let x ← p.number 1 a
  let furry ← p.boolean 2 b
  newKindOfAnimal (fields x) furry

/-- The argument that the host chooses, or null. -/
def handBack (host : Host) (name : String) (id : HostId) (args : List Value) : Action Value :=
  .read fun s => ((host s name id args).bind (args[·]?)).getD .null

/-! ## Calls -/

/-- Call a primitive. -/
def call (host : Host) : Primitive → List Value → Action Value
  | p@(arithmetic op), [a, b] => do
    let x ← p.number 1 a
    let y ← p.number 2 b
    return .number (op.apply x y)
  | p@isZero, [a] => do
    let x ← p.number 1 a
    return .bool (x == 0)
  | p@field, [a, b] => do
    let id ← p.object 1 a
    let name ← p.keyword 2 b
    .readOrFail (·.lookup id name)
  | p@animal, [a] => do
    let furry ← p.boolean 1 a
    new (plainAnimal furry)
  | p@dog, [a, b] =>
    p.kindOfAnimal (fun breed => [("breed", .number breed), ("noise", .keyword "woof")]) a b
  | p@cat, [a, b] =>
    p.kindOfAnimal (fun color => [("fur-color", .number color), ("noise", .keyword "meow")]) a b
  | makeObject, args => do
    new (← .readOrFail fun s => Object.ofLiteral s.text args)
  | .host name id, args => handBack host name id args
  | p, args => .fail (.arityMismatch p.name (p.arity.getD 0) args.length)

end Primitive

end ObjectLisp
