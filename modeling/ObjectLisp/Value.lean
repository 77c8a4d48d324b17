import ObjectLisp.Primitive

/-!
# Values

Closures and objects live in the store and are shared, so a value names them by identity. All other
values are plain data.
-/

namespace ObjectLisp

/-- The identity of a frame of bindings. -/
structure FrameId where
  index : Nat
deriving DecidableEq

/-- The identity of a closure. -/
structure ClosureId where
  index : Nat
deriving DecidableEq

/-- The identity of an object. -/
structure ObjectId where
  index : Nat
deriving DecidableEq

/-- What an expression evaluates to. -/
inductive Value where
  | number (x : Float)
  | bool (b : Bool)
  | null
  | keyword (name : String)
  | closure (id : ClosureId)
  | primitive (p : Primitive)
  | object (id : ObjectId)
deriving DecidableEq

namespace Value

instance : Inhabited Value := ⟨null⟩

/-- The name of a value's kind. -/
def typeName : Value → String
  | number _ => "number"
  | bool _ => "boolean"
  | null => "null"
  | keyword _ => "keyword"
  | closure _ => "closure"
  | primitive _ => "primitive"
  | object _ => "object"

/-- The double of a number. -/
def number? : Value → Option Float
  | number x => some x
  | _ => none

/-- The truth value of a boolean. -/
def bool? : Value → Option Bool
  | bool b => some b
  | _ => none

/-- The name of a keyword. -/
def keyword? : Value → Option String
  | keyword name => some name
  | _ => none

/-- The identity of an object. -/
def object? : Value → Option ObjectId
  | object id => some id
  | _ => none

/-- Whether a value may be given to the fields of an object literal: neither null nor an object. -/
def isFieldLiteral : Value → Bool
  | null | object _ => false
  | _ => true

end Value

end ObjectLisp
