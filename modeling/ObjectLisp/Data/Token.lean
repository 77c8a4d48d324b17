import ObjectLisp.Data
import ObjectLisp.Token

/-!
# Tokens as data

A token is a record of its kind, its text and its place. The list of the four parts in that order is
read as well. The document is the tree of one that has been parsed (`ObjectLisp.Data`); a line and a
column are natural numbers of any size in it.
-/

namespace ObjectLisp

namespace TokenKind

/-- A token kind as a document. -/
def toData : TokenKind → Data
  | leftParen => .text "LeftParen"
  | rightParen => .text "RightParen"
  | colon => .text "Colon"
  | number x => .variant "Number" (.ofFloat x)
  | bool b => .text (if b then "True" else "False")
  | null => .text "Null"
  | identifier name => .variant "Identifier" (.text name)
  | endOfInput => .text "Eof"

/-- The token kind of a tag that stands by itself. -/
def ofTag? (tag : String) : Option TokenKind :=
  if tag = "LeftParen" then some leftParen
  else if tag = "RightParen" then some rightParen
  else if tag = "Colon" then some colon
  else if tag = "True" then some (bool true)
  else if tag = "False" then some (bool false)
  else if tag = "Null" then some null
  else if tag = "Eof" then some endOfInput
  else none

/-- The token kind of a document. A tag that stands by itself may also be written as a record that
holds null. -/
def ofData? : Data → Option TokenKind
  | .text tag => ofTag? tag
  | .record [(tag, content)] =>
    if tag = "Number" then content.float?.map number
    else if tag = "Identifier" then content.text?.map identifier
    else
      match content with
      | .null => ofTag? tag
      | _ => none
  | _ => none

end TokenKind

namespace Token

/-- A token as a document. -/
def toData (t : Token) : Data :=
  .record [("kind", t.kind.toData), ("lexeme", .text t.lexeme),
    ("line", .natural t.position.line), ("column", .natural t.position.column)]

/-- The token of its four parts. -/
def ofParts? (kind lexeme line column : Data) : Option Token := do
  let kind ← TokenKind.ofData? kind
  let lexeme ← lexeme.text?
  let line ← line.natural?
  let column ← column.natural?
  return ⟨kind, lexeme, ⟨line, column⟩⟩

/-- The token of a document. -/
def ofData? : Data → Option Token
  | .record fields => do
    let kind ← Data.field? "kind" fields
    let lexeme ← Data.field? "lexeme" fields
    let line ← Data.field? "line" fields
    let column ← Data.field? "column" fields
    ofParts? kind.1 lexeme.1 line.1 column.1
  | .list [kind, lexeme, line, column] => ofParts? kind lexeme line column
  | _ => none

/-- Tokens as a document. -/
def listToData (tokens : List Token) : Data := .list (tokens.map toData)

/-- The tokens of a document. -/
def listOfData? : Data → Option (List Token)
  | .list items => Data.all? ofData? items
  | _ => none

end Token

end ObjectLisp
