import ObjectLisp.Eval
import ObjectLisp.Reader
import ObjectLisp.Registry

/-!
# Interpreters

An interpreter is a store with the frame that its sources see, and what is defined there stays
from one run to the next. `run` reads a source and executes it as a program; `evaluate` reads a
source and gives the value of the one expression it holds. Both leave the store to the outcome, so
the next run starts where the last one ended, also after a failure.
-/

namespace ObjectLisp

/-- A store and the frame of the top-level definitions. -/
structure Interpreter where
  store : Store
  root : FrameId

namespace Interpreter

/-- An interpreter over the given primitives. -/
def ofRegistry (r : Registry) : Interpreter :=
  let (root, store) := r.rootFrame .empty
  ⟨store, root⟩

/-- An interpreter over the standard primitives. -/
def standard : Interpreter := ofRegistry .standard

/-- Execute a program at top level. -/
def execute (host : Host) (depth : Nat) (i : Interpreter) (p : Program) : Outcome (List String) :=
  ObjectLisp.execute host depth i.root p i.store

/-- Read a source and execute it at top level. A source that cannot be read does nothing. -/
def run (host : Host) (depth : Nat) (i : Interpreter) (source : String) :
    Except ReadError (Outcome (List String)) :=
  (Reader.readProgram source).map (i.execute host depth)

/-- Read a source as one expression and give its value at top level. -/
def evaluate (host : Host) (depth : Nat) (i : Interpreter) (source : String) :
    Except ReadError (Outcome Value) :=
  (Reader.readExpression source).map fun e => ObjectLisp.evaluate host depth i.root e i.store

end Interpreter

end ObjectLisp
