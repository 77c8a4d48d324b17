/-!
# Primitives

The functions that programs are given and cannot define: arithmetic, object construction and field
access, three class constructors, and functions supplied by the host. A primitive is data;
`ObjectLisp.Primitive.Call` says what a call does.

A function of the host has an identity beside its name. Two of one name may do different things, and
a registry tells them apart, but to a program they are equal, since primitives are compared by
name.
-/

namespace ObjectLisp

/-- The four operations of arithmetic. -/
inductive Arithmetic where
  | add
  | subtract
  | multiply
  | divide
deriving DecidableEq

namespace Arithmetic

/-- The name of the operation. -/
def symbol : Arithmetic → String
  | add => "+"
  | subtract => "-"
  | multiply => "*"
  | divide => "/"

/-- The operation on doubles. -/
def apply : Arithmetic → Float → Float → Float
  | add, x, y => x + y
  | subtract, x, y => x - y
  | multiply, x, y => x * y
  | divide, x, y => x / y

end Arithmetic

/-- The identity of a function of the host. -/
structure HostId where
  index : Nat
deriving DecidableEq

/-- A built-in or host-supplied function. -/
inductive Primitive where
  | arithmetic (op : Arithmetic)
  | isZero
  | makeObject
  | field
  | animal
  | dog
  | cat
  | host (name : String) (id : HostId := ⟨0⟩)
deriving DecidableEq

namespace Primitive

/-- The name under which a primitive is registered. -/
def name : Primitive → String
  | arithmetic op => op.symbol
  | isZero => "zero?"
  | makeObject => "obj"
  | field => "field"
  | animal => "Animal"
  | dog => "Dog"
  | cat => "Cat"
  | host name _ => name

/-- The number of arguments a primitive takes, if it is fixed. -/
def arity : Primitive → Option Nat
  | arithmetic _ => some 2
  | isZero => some 1
  | makeObject => none
  | field => some 2
  | animal => some 1
  | dog => some 2
  | cat => some 2
  | host _ _ => none

end Primitive

end ObjectLisp
