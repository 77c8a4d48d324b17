import ObjectLisp.Store
import ObjectLisp.Unvisited

/-!
# Equality of values

Numbers are equal as numbers, closures when they are the same closure, primitives by name. Objects
are equal when they are the same object, or when they have the same field names, equal field
values and equal prototypes.

Objects may refer to each other in circles, so the comparison assumes that every pair it has begun
to compare is equal, and fails as a whole at the first difference. It keeps the pairs still to be
compared in a list instead of calling itself, and therefore never has to take an assumption back.
-/

namespace ObjectLisp

/-- Equality of values of which at most one is an object. -/
def Value.sameScalar : Value → Value → Bool
  | .number x, .number y => x == y
  | .bool a, .bool b => a == b
  | .null, .null => true
  | .keyword a, .keyword b => a == b
  | .closure a, .closure b => a == b
  | .primitive p, .primitive q => p.name == q.name
  | _, _ => false

namespace Object

/-- The values that have to be equal, pair by pair, for two objects with the same field names to be
equal. -/
def parts (a b : Object) : List (Value × Value) :=
  (a.fields.entries.map (·.2)).zip (b.fields.entries.map (·.2))
    ++ [(a.prototypeValue, b.prototypeValue)]

end Object

namespace Store

/-- Whether all pairs of `todo` are equal, if those of `assumed` are. An identity that belongs to no
object equals only itself. -/
def allEqual (s : Store) (assumed : List (ObjectId × ObjectId)) :
    List (Value × Value) → Bool
  | [] => true
  | (.object x, .object y) :: todo =>
    if x = y then s.allEqual assumed todo
    else if hseen : (x, y) ∈ assumed then s.allEqual assumed todo
    else if hids : x.index < s.objects.size ∧ y.index < s.objects.size then
      have hx := hids.1
      have hy := hids.2
      let a := s.objects[x.index]
      let b := s.objects[y.index]
      a.fields.names == b.fields.names && s.allEqual ((x, y) :: assumed) (a.parts b ++ todo)
    else false
  | (v, w) :: todo => v.sameScalar w && s.allEqual assumed todo
termination_by todo => (unvisited s.objectPairs assumed, todo.length)
decreasing_by
  · exact Prod.Lex.right _ (Nat.lt_succ_self _)
  · exact Prod.Lex.right _ (Nat.lt_succ_self _)
  · exact Prod.Lex.left _ _ (unvisited_cons_lt
      (mem_objectPairs.2 ⟨mem_objectIds.2 hids.1, mem_objectIds.2 hids.2⟩) hseen)
  · exact Prod.Lex.right _ (Nat.lt_succ_self _)

/-- Equality of values. -/
def equal (s : Store) (v w : Value) : Bool := s.allEqual [] [(v, w)]

end Store

end ObjectLisp
