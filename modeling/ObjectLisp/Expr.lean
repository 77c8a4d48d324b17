import ObjectLisp.Value
import ObjectLisp.Number.Text

/-!
# Expressions and programs

The abstract syntax and its text. Besides what a source can say, an expression may hold a value
that was already computed. How such a value is written or compared depends on the store, so
`Expr.text` and `Expr.equal` take that as an argument; on expressions read from a source it plays
no part.
-/

namespace ObjectLisp

/-- An expression. -/
inductive Expr where
  | var (name : String)
  | number (x : Float)
  | bool (b : Bool)
  | null
  | keyword (name : String)
  | lambda (params : List String) (body : Expr)
  | application (head : Expr) (args : List Expr)
  | conditional (guard consequent alternative : Expr)
  | value (v : Value)

namespace Expr

instance : Inhabited Expr := ⟨null⟩

/-! ## Text -/

mutual

/-- An expression in the notation of the source. -/
def text (valueText : Value → String) : Expr → String
  | var name => name
  | number x => Number.text x
  | bool b => if b then "true" else "false"
  | null => "null"
  | keyword name => ":" ++ name
  | lambda params body =>
    "(lambda (" ++ " ".intercalate params ++ ") " ++ body.text valueText ++ ")"
  | application head args => "(" ++ head.text valueText ++ textArguments valueText args ++ ")"
  | conditional guard consequent alternative =>
    "(if " ++ guard.text valueText ++ " " ++ consequent.text valueText ++ " "
      ++ alternative.text valueText ++ ")"
  | value v => valueText v

/-- The arguments of an application, each after a space. -/
def textArguments (valueText : Value → String) : List Expr → String
  | [] => ""
  | e :: rest => " " ++ e.text valueText ++ textArguments valueText rest

end

/-- The text of an expression that holds no computed value. -/
def sourceText (e : Expr) : String := e.text fun _ => ""

/-! ## Equality -/

mutual

/-- Equality of expressions, with numbers compared as numbers: `0` equals `-0`, and a number that is
undefined differs from itself. -/
def equal (same : Value → Value → Bool) : Expr → Expr → Bool
  | var a, var b => a == b
  | number a, number b => a == b
  | bool a, bool b => a == b
  | null, null => true
  | keyword a, keyword b => a == b
  | lambda ps a, lambda qs b => ps == qs && a.equal same b
  | application f as, application g bs => f.equal same g && equalLists same as bs
  | conditional a₁ a₂ a₃, conditional b₁ b₂ b₃ =>
    a₁.equal same b₁ && a₂.equal same b₂ && a₃.equal same b₃
  | value v, value w => same v w
  | _, _ => false

/-- Equality of expression lists, element by element. -/
def equalLists (same : Value → Value → Bool) : List Expr → List Expr → Bool
  | [], [] => true
  | a :: as, b :: bs => a.equal same b && equalLists same as bs
  | _, _ => false

end

end Expr

/-! ## Programs -/

/-- A top-level statement. -/
inductive Statement where
  | define (name : String) (value : Expr)
  | print (expr : Expr)

/-- A statement in the notation of the source. -/
def Statement.text (valueText : Value → String) : Statement → String
  | define name value => "(define " ++ name ++ " " ++ value.text valueText ++ ")"
  | print expr => "(print " ++ expr.text valueText ++ ")"

/-- The text of a statement that holds no computed value. -/
def Statement.sourceText (s : Statement) : String := s.text fun _ => ""

/-- Equality of statements. -/
def Statement.equal (same : Value → Value → Bool) : Statement → Statement → Bool
  | define a v, define b w => a == b && v.equal same w
  | print e, print f => e.equal same f
  | _, _ => false

/-- Statements to be executed in order. -/
structure Program where
  statements : List Statement

/-- Equality of programs, statement by statement. -/
def Program.equal (same : Value → Value → Bool) (p q : Program) : Bool :=
  p.statements.isEqv q.statements (Statement.equal same)

end ObjectLisp
