import ObjectLisp.Error
import ObjectLisp.Store.Text

/-!
# Objects

Fields are set by keyword and found along the prototypes: an object's own fields come first, then
those of its prototype, and so on. A prototype chain may run in a circle, and then a field that no
object on it owns is reported as such.

Objects are built from alternating keys and values. `ofPairs` takes any values, `ofLiteral` only
those that an object literal may hold, and it looks at all pairs before it builds anything.
-/

namespace ObjectLisp

namespace Object

/-! ## Construction -/

/-- An object without fields and prototype. -/
def empty : Object := ⟨∅, none⟩

/-- Set an own field by name. -/
def insert (o : Object) (name : String) (v : Value) : Object :=
  { o with fields := o.fields.insert name v }

/-- An object with the given fields. -/
def ofFields (fields : List (String × Value)) : Object := ⟨Dict.ofList fields, none⟩

/-- The name that a key stands for. -/
def keyName (text : Value → String) (key : Value) : Except RuntimeError String :=
  match key.keyword? with
  | some name => .ok name
  | none => .error (.keyType (text key))

/-- Set fields from alternating keys and values, from the front. -/
def insertPairs (text : Value → String) : List Value → Object → Except RuntimeError Object
  | key :: v :: rest, o =>
    match keyName text key with
    | .error e => .error e
    | .ok name => insertPairs text rest (o.insert name v)
  | _, o => .ok o

/-- An object of alternating keys and values. -/
def ofPairs (text : Value → String) (args : List Value) : Except RuntimeError Object :=
  if args.length % 2 ≠ 0 then .error (.oddArguments args.length) else insertPairs text args empty

/-- Check that every key is a keyword, and every value one that an object literal may hold. -/
def checkPairs (text : Value → String) : List Value → Except RuntimeError Unit
  | key :: v :: rest =>
    match keyName text key with
    | .error e => .error e
    | .ok name =>
      if v.isFieldLiteral then checkPairs text rest else .error (.disallowedField name (text v))
  | _ => .ok ()

/-- The object of an object literal. -/
def ofLiteral (text : Value → String) (args : List Value) : Except RuntimeError Object :=
  if args.length % 2 ≠ 0 then .error (.oddArguments args.length)
  else
    match checkPairs text args with
    | .error e => .error e
    | .ok () => ofPairs text args

end Object

namespace Store

/-! ## Fields along the prototypes -/

/-- The outcome of a search along the prototypes. -/
inductive Search where
  | found (v : Value)
  | missing
  | cyclic
deriving DecidableEq

/-- Search for a field from `id` on, after the objects `visited`. -/
def search (s : Store) (name : String) (visited : List ObjectId) (id : ObjectId) : Search :=
  if hcycle : id ∈ visited then .cyclic
  else if hid : id.index < s.objects.size then
    let o := s.objects[id.index]
    match o.fields.get? name with
    | some v => .found v
    | none =>
      match o.prototype with
      | none => .missing
      | some next => s.search name (id :: visited) next
  else .missing
termination_by unvisited s.objectIds visited
decreasing_by
  exact unvisited_cons_lt (mem_objectIds.2 hid) hcycle

/-- The value of a field of an object or of the nearest prototype that owns it. -/
def lookup (s : Store) (id : ObjectId) (name : String) : Except RuntimeError Value :=
  match s.search name [] id with
  | .found v => .ok v
  | .missing => .error (.fieldNotFound name (s.text (.object id)))
  | .cyclic => .error (.prototypeCycle name)

/-! ## Changes -/

/-- Set an own field of an object. -/
def insertField (s : Store) (id : ObjectId) (name : String) (v : Value) : Store :=
  s.setObject id ((s.object id).insert name v)

/-- Set an own field of an object, by a key that has to be a keyword. -/
def setField (s : Store) (id : ObjectId) (key v : Value) : Except RuntimeError Unit × Store :=
  match Object.keyName s.text key with
  | .error e => (.error e, s)
  | .ok name => (.ok (), s.insertField id name v)

/-- Replace the prototype of an object, by another object or by none. -/
def setPrototype (s : Store) (id : ObjectId) (v : Value) : Except RuntimeError Unit × Store :=
  match v with
  | .null => (.ok (), s.setObject id { s.object id with prototype := none })
  | .object next => (.ok (), s.setObject id { s.object id with prototype := some next })
  | _ => (.error (.invalidPrototype (s.text v)), s)

end Store

end ObjectLisp
