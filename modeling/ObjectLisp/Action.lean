import ObjectLisp.Scope
import ObjectLisp.Object

/-!
# Actions on the store

Evaluation reads and extends the store, may fail, and may run out of the depth it was given. An
`Action` is such a computation. A failed action keeps the store it failed in, because what was done
before the failure stays done.
-/

namespace ObjectLisp

/-- How an action ends: with a value, with an error, or not within its depth. -/
inductive Outcome (α : Type) where
  | value (a : α) (s : Store)
  | error (e : RuntimeError) (s : Store)
  | outOfFuel

/-- A computation on the store. -/
def Action (α : Type) : Type := Store → Outcome α

namespace Action

variable {α β : Type}

/-- Go on with the value of an outcome, and keep its failure. -/
@[inline]
def andThen (x : Action α) (f : α → Action β) : Action β := fun s =>
  match x s with
  | .value a s' => f a s'
  | .error e s' => .error e s'
  | .outOfFuel => .outOfFuel

@[always_inline]
instance : Monad Action where
  pure a := fun s => .value a s
  bind := andThen

/-- Fail. -/
@[inline]
def fail (e : RuntimeError) : Action α := fun s => .error e s

/-- Give up for lack of depth. -/
def exhausted : Action α := fun _ => .outOfFuel

/-- Fail with an error that speaks about the store. -/
@[inline]
def failWith (e : Store → RuntimeError) : Action α := fun s => .error (e s) s

/-- Read from the store. -/
@[inline]
def read (f : Store → α) : Action α := fun s => .value (f s) s

/-- Read from the store what may be missing. -/
@[inline]
def readOrFail (f : Store → Except RuntimeError α) : Action α := fun s =>
  match f s with
  | .ok a => .value a s
  | .error e => .error e s

/-- Add something to the store. -/
@[inline]
def create (f : Store → α × Store) : Action α := fun s =>
  let (a, s') := f s
  .value a s'

/-- Do something to the store that may fail. -/
@[inline]
def perform (f : Store → Except RuntimeError α × Store) : Action α := fun s =>
  match f s with
  | (.ok a, s') => .value a s'
  | (.error e, s') => .error e s'

end Action

end ObjectLisp
