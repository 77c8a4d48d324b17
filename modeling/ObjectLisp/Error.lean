import ObjectLisp.Token
import ObjectLisp.Text.Quoted

/-!
# Errors

What can go wrong, as causes: `ReadError` for text that is no program, `RuntimeError` for programs
that fail. `Error.message` is the wording and `Error.category` the coarse kind. A runtime error that
speaks about a value holds the value's text at the time of the error, because the objects in it may
change later.
-/

namespace ObjectLisp

/-! ## Reading -/

/-- What the reader was looking for. -/
inductive Expectation where
  | expression
  | endOfInput
  | elseBranch
  | keywordName
  | nameToDefine
  | parameterName
  | leftParen
  | rightParen
deriving DecidableEq

/-- How messages name an expectation. -/
def Expectation.describe : Expectation → String
  | expression => "expression"
  | endOfInput => "end of input after the expression"
  | elseBranch => "else branch of conditional"
  | keywordName => "keyword name after `:`"
  | nameToDefine => "name to define"
  | parameterName => "parameter name"
  | leftParen => TokenKind.leftParen.describe
  | rightParen => TokenKind.rightParen.describe

/-- A violation of the rules of the source text. -/
inductive Fault where
  | stringLiteral
  | unexpectedCharacter (c : Char)
  | malformedNumber (word : String)
  | emptyApplication
  | misplacedStatement (name : String)
  | detachedKeyword
  | expected (what : Expectation) (found : TokenKind)
deriving DecidableEq

/-- The wording of a fault. -/
def Fault.message : Fault → String
  | stringLiteral => "string literals are not supported"
  | unexpectedCharacter c => "unexpected character '" ++ Text.escape c ++ "'"
  | malformedNumber word => "malformed number '" ++ word ++ "'"
  | emptyApplication => "empty application `()`"
  | misplacedStatement name =>
    "`" ++ name ++ "` is a statement and may only appear at top level"
  | detachedKeyword => "keyword name must follow `:` directly"
  | expected what found => "expected " ++ what.describe ++ ", found " ++ found.describe

/-- Why a source is not a program or an expression. -/
inductive ReadError where
  | fault (position : Position) (fault : Fault)
  | unexpectedEnd
  | notAStatement (form : String)
deriving DecidableEq

/-- The wording of a reading error. -/
def ReadError.message : ReadError → String
  | fault p f =>
    "Syntax error at line " ++ toString p.line ++ ", column " ++ toString p.column ++ ": "
      ++ f.message
  | unexpectedEnd => "Unexpected end of input"
  | notAStatement form => "Not a statement: " ++ form

/-! ## Running -/

/-- The kinds of argument that primitives ask for. -/
inductive ArgumentType where
  | number
  | boolean
  | keyword
  | object
deriving DecidableEq

/-- How messages name a kind of argument. -/
def ArgumentType.describe : ArgumentType → String
  | number => "number"
  | boolean => "boolean"
  | keyword => "keyword"
  | object => "object"

/-- Why an evaluation, or an operation on frames and objects, fails. -/
inductive RuntimeError where
  | unboundVariable (name : String)
  | redefinition (name : String)
  | arityMismatch (callee : String) (expected got : Nat)
  | argumentType (primitive : String) (position : Nat) (expected : ArgumentType) (got : String)
  | guardType (got : String)
  | notCallable (value : String)
  | keyType (got : String)
  | oddArguments (count : Nat)
  | disallowedField (key got : String)
  | invalidPrototype (got : String)
  | fieldNotFound (key object : String)
  | prototypeCycle (key : String)
deriving DecidableEq

/-- The wording of a runtime error. -/
def RuntimeError.message : RuntimeError → String
  | unboundVariable name => "Unbound variable: " ++ name
  | redefinition name => "Redefinition of '" ++ name ++ "' in the same scope"
  | arityMismatch callee expected got =>
    "Arity mismatch calling " ++ callee ++ ": expected " ++ toString expected ++ " arguments, got "
      ++ toString got
  | argumentType primitive position expected got =>
    "Type error in " ++ primitive ++ ": expected " ++ expected.describe ++ " at position "
      ++ toString position ++ ", got " ++ got
  | guardType got => "Type error: if expects a boolean guard, got " ++ got
  | notCallable value =>
    "Value is not callable: expected closure, primitive or object, got " ++ value
  | keyType got => "Type error: object keys must be keywords, got " ++ got
  | oddArguments count =>
    "Malformed object literal: expected key/value pairs, got " ++ toString count ++ " arguments"
  | disallowedField key got =>
    "Malformed object literal: value for :" ++ key
      ++ " must be a number, boolean, primitive, closure or keyword, got " ++ got
  | invalidPrototype got => "Invalid prototype: expected object or null, got " ++ got
  | fieldNotFound key object => "Field :" ++ key ++ " not found in " ++ object
  | prototypeCycle key => "Prototype chain is cyclic while looking up :" ++ key

/-! ## All errors -/

/-- Any error of running a source. -/
inductive Error where
  | read (e : ReadError)
  | runtime (e : RuntimeError)
deriving DecidableEq

/-- The coarse kinds of error. -/
inductive Category where
  | unreadable
  | unbound
  | redefinition
  | arity
  | type
  | malformedObject
  | fieldNotFound
deriving DecidableEq

/-- The coarse kind of a runtime error. -/
def RuntimeError.category : RuntimeError → Category
  | unboundVariable _ => .unbound
  | redefinition _ => .redefinition
  | arityMismatch .. => .arity
  | argumentType .. | guardType _ | notCallable _ | keyType _ | invalidPrototype _ => .type
  | oddArguments _ | disallowedField .. => .malformedObject
  | fieldNotFound .. | prototypeCycle _ => .fieldNotFound

namespace Error

/-- The coarse kind of an error. -/
def category : Error → Category
  | read _ => .unreadable
  | runtime e => e.category

/-- The wording of an error. -/
def message : Error → String
  | read e => e.message
  | runtime e => e.message

end Error

end ObjectLisp
