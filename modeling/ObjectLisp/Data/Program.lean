import ObjectLisp.Data
import ObjectLisp.Expr

/-!
# Programs as data

Each kind of expression and statement is a variant named by a tag. An expression that holds a
computed value has no document, because closures and objects are known to one store only.

Reading starts from the tree of a document that has been parsed, and sets no limit to its nesting.
A variant with several parts is read from the record of its parts only; the program, which has its
statements for its one part, is read from the list of that part as well.
-/

namespace ObjectLisp

namespace Expr

/-! ## Expressions -/

mutual

/-- An expression as a document, unless a computed value occurs in it. -/
def toData? : Expr → Option Data
  | var name => some (.variant "Variable" (.text name))
  | number x => some (.variant "NumberLiteral" (.ofFloat x))
  | bool b => some (.variant "BoolLiteral" (.bool b))
  | null => some (.text "NullLiteral")
  | keyword name => some (.variant "KeywordLiteral" (.text name))
  | lambda params body =>
    match body.toData? with
    | some body => some (.variant "Lambda" (.record [("params", .ofTexts params), ("body", body)]))
    | none => none
  | application head args =>
    match head.toData?, listToData? args with
    | some head, some args =>
      some (.variant "Application" (.record [("head", head), ("args", .list args)]))
    | _, _ => none
  | conditional guard consequent alternative =>
    match guard.toData?, consequent.toData?, alternative.toData? with
    | some guard, some consequent, some alternative =>
      some (.variant "Conditional" (.record
        [("guard", guard), ("then_expr", consequent), ("else_expr", alternative)]))
    | _, _, _ => none
  | value _ => none

/-- Expressions as documents, unless a computed value occurs in one. -/
def listToData? : List Expr → Option (List Data)
  | [] => some []
  | e :: rest =>
    match e.toData?, listToData? rest with
    | some d, some ds => some (d :: ds)
    | _, _ => none

end

/-- The expression of a variant without smaller expressions. -/
def ofLeaf? (tag : String) (content : Data) : Option Expr :=
  if tag = "Variable" then content.text?.map var
  else if tag = "NumberLiteral" then content.float?.map number
  else if tag = "BoolLiteral" then content.bool?.map bool
  else if tag = "KeywordLiteral" then content.text?.map keyword
  else if tag = "NullLiteral" then
    match content with
    | .null => some null
    | _ => none
  else none

mutual

/-- The expression of a document. -/
def ofData? : Data → Option Expr
  | .text tag => if tag = "NullLiteral" then some null else none
  | .record [(tag, content)] =>
    match content with
    | .record fields => ofFields? tag fields
    | content => ofLeaf? tag content
  | _ => none
termination_by d => sizeOf d

/-- The expression of a variant with smaller expressions in its fields. -/
def ofFields? (tag : String) (fields : List (String × Data)) : Option Expr :=
  if tag = "Lambda" then do
    let params ← Data.field? "params" fields
    let params ← params.1.texts?
    let ⟨body, _⟩ ← Data.field? "body" fields
    let body ← ofData? body
    return lambda params body
  else if tag = "Application" then do
    let ⟨head, _⟩ ← Data.field? "head" fields
    let head ← ofData? head
    let ⟨args, _⟩ ← Data.field? "args" fields
    let ⟨items, _⟩ ← args.items?
    let args ← listOfData? items
    return application head args
  else if tag = "Conditional" then do
    let ⟨guard, _⟩ ← Data.field? "guard" fields
    let guard ← ofData? guard
    let ⟨consequent, _⟩ ← Data.field? "then_expr" fields
    let consequent ← ofData? consequent
    let ⟨alternative, _⟩ ← Data.field? "else_expr" fields
    let alternative ← ofData? alternative
    return conditional guard consequent alternative
  else none
termination_by sizeOf fields

/-- The expressions of documents. -/
def listOfData? : List Data → Option (List Expr)
  | [] => some []
  | d :: rest => do
    let e ← ofData? d
    let es ← listOfData? rest
    return e :: es
termination_by items => sizeOf items

end

end Expr

/-! ## Statements and programs -/

namespace Statement

/-- A statement as a document, unless a computed value occurs in it. -/
def toData? : Statement → Option Data
  | define name value =>
    value.toData?.map fun d => .variant "Define" (.record [("name", .text name), ("value", d)])
  | print expr => expr.toData?.map fun d => .variant "Print" d

/-- The statement of a document. -/
def ofData? : Data → Option Statement
  | .record [(tag, content)] =>
    if tag = "Define" then
      match content with
      | .record fields => do
        let name ← Data.field? "name" fields
        let name ← name.1.text?
        let value ← Data.field? "value" fields
        let value ← Expr.ofData? value.1
        return define name value
      | _ => none
    else if tag = "Print" then (Expr.ofData? content).map print
    else none
  | _ => none

end Statement

namespace Program

/-- A program as a document, unless a computed value occurs in it. -/
def toData? (p : Program) : Option Data :=
  (Data.all? Statement.toData? p.statements).map fun ds => .record [("statements", .list ds)]

/-- The program of a document that lists its statements. -/
def ofStatements? : Data → Option Program
  | .list items => (Data.all? Statement.ofData? items).map Program.mk
  | _ => none

/-- The program of a document: a record of the statements, or a list of that one part. -/
def ofData? : Data → Option Program
  | .record fields => (Data.field? "statements" fields).bind fun d => ofStatements? d.1
  | .list [items] => ofStatements? items
  | _ => none

end Program

end ObjectLisp
