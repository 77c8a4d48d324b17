import ObjectLisp.Number.Text

/-!
# Tokens

A token is a kind, the text it was read from and the place where that text begins. Lines and columns
count from one, and a column is a code point. They are natural numbers without a bound. A counter of
64 bits counts the same as long as it does not run over, and the only place where it could do so on
tokens that were not scanned is the column after a colon in the last column that fits
(`ObjectLisp.Reader.touches`).
-/

namespace ObjectLisp

/-- A place in a source. -/
structure Position where
  line : Nat
  column : Nat
deriving DecidableEq

namespace Position

/-- Where a source begins. -/
def start : Position := ⟨1, 1⟩

/-- The place `n` characters further on the same line. -/
def right (p : Position) (n : Nat) : Position := ⟨p.line, p.column + n⟩

/-- The place after the character at `p`. -/
def after (p : Position) (c : Char) : Position :=
  if c == '\n' then ⟨p.line + 1, 1⟩ else p.right 1

end Position

/-- The kind of a token. -/
inductive TokenKind where
  | leftParen
  | rightParen
  | colon
  | number (x : Float)
  | bool (b : Bool)
  | null
  | identifier (name : String)
  | endOfInput
deriving DecidableEq

/-- How messages name a token. -/
def TokenKind.describe : TokenKind → String
  | leftParen => "'('"
  | rightParen => "')'"
  | colon => "':'"
  | number x => "number " ++ Number.plainText x
  | bool b => if b then "true" else "false"
  | null => "null"
  | identifier name => "identifier '" ++ name ++ "'"
  | endOfInput => "end of input"

/-- A token of a source. -/
structure Token where
  kind : TokenKind
  lexeme : String
  position : Position
deriving DecidableEq

end ObjectLisp
