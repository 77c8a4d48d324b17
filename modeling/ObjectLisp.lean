import ObjectLisp.Interpreter
import ObjectLisp.Object.Equality
import ObjectLisp.Data.Program
import ObjectLisp.Data.Token
import ObjectLisp.Proofs.Number.Reading
import ObjectLisp.Proofs.Token.Words
import ObjectLisp.Proofs.Text.Quoted
import ObjectLisp.Proofs.Expr
import ObjectLisp.Proofs.Reader.Grammar
import ObjectLisp.Proofs.Reader.RoundTrip
import ObjectLisp.Proofs.Dict
import ObjectLisp.Proofs.Expr.Substitution
import ObjectLisp.Proofs.Object.Bisimulation
import ObjectLisp.Proofs.Eval.Depth
import ObjectLisp.Proofs.Eval.Growth
import ObjectLisp.Proofs.Simulation.World
import ObjectLisp.Proofs.Simulation.Object
import ObjectLisp.Proofs.Simulation.Primitive
import ObjectLisp.Proofs.Simulation.Evaluation
import ObjectLisp.Proofs.Simulation.Identity
import ObjectLisp.Proofs.Eval.Scoping
import ObjectLisp.Proofs.Eval.Beta
import ObjectLisp.Proofs.Store.WellFormed
import ObjectLisp.Proofs.Eval.Validity
import ObjectLisp.Proofs.Eval.Calls
import ObjectLisp.Proofs.Reader.Derivation
import ObjectLisp.Proofs.Token.Layout
import ObjectLisp.Proofs.Reader.Completion
import ObjectLisp.Proofs.Reader.Joining
import ObjectLisp.Proofs.Eval.Execution
import ObjectLisp.Proofs.Store.Binding
import ObjectLisp.Proofs.Eval.Transition
import ObjectLisp.Proofs.Session
import ObjectLisp.Proofs.Session.Splitting
import ObjectLisp.Proofs.Eval.Trace
import ObjectLisp.Proofs.Object.Layering
import ObjectLisp.Proofs.Session.Objects
import ObjectLisp.Proofs.Object.Equivalence
import ObjectLisp.Proofs.Object.Indistinguishability
import ObjectLisp.Proofs.Eval.Objectless
import ObjectLisp.Proofs.Session.Confinement
import ObjectLisp.Proofs.Session.Reordering
import ObjectLisp.Proofs.Object.Chain
import ObjectLisp.Proofs.Store.Unfolding
import ObjectLisp.Proofs.Number.Bits
import ObjectLisp.Proofs.Data.Reading
import ObjectLisp.Proofs.Data.Expression
import ObjectLisp.Proofs.Data.RoundTrip
import ObjectLisp.Proofs.Number.Range
import ObjectLisp.Proofs.Number.Printed
import ObjectLisp.Proofs.Token.Numbers
import ObjectLisp.Proofs.Links
import ObjectLisp.Proofs.Scope.Nesting
import ObjectLisp.Proofs.Store.Reachable
import ObjectLisp.Proofs.Scope.Update
import ObjectLisp.Proofs.Object.Construction
import ObjectLisp.Proofs.Object.Mutation
import ObjectLisp.Proofs.Scope.Definition
import ObjectLisp.Proofs.Token.Position
import ObjectLisp.Proofs.Reader.Position
import ObjectLisp.Proofs.Reader.Spacing
import ObjectLisp.Proofs.Reader.Readable
import ObjectLisp.Proofs.Registry
import ObjectLisp.Proofs.Primitive.Arguments
import ObjectLisp.Proofs.Scope.Walk
import ObjectLisp.Proofs.Reader.Cursor
