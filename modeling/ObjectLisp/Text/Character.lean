import ObjectLisp.Text.Ranges

/-!
# Character classes of the source text

Three classes decide how a source is split: white space (the Unicode property `White_Space`),
control characters (the Unicode category `Cc`), and the delimiters, which end a word.
-/

namespace ObjectLisp.Text

/-- The code points with the property `White_Space`, as inclusive ranges in increasing order. -/
def whitespaceRanges : List (Nat × Nat) :=
  [(0x09, 0x0D), (0x20, 0x20), (0x85, 0x85), (0xA0, 0xA0), (0x1680, 0x1680), (0x2000, 0x200A),
    (0x2028, 0x2029), (0x202F, 0x202F), (0x205F, 0x205F), (0x3000, 0x3000)]

/-- The table is in increasing order. -/
theorem whitespaceRanges_increasing : increasingFrom 0 whitespaceRanges = true := by decide +kernel

/-- White space, which separates tokens. -/
def isWhitespace (c : Char) : Bool := covers whitespaceRanges c.toNat

/-- A control character. Some of them are white space too. -/
def isControl (c : Char) : Bool :=
  c.toNat < 0x20 || (0x7F ≤ c.toNat && c.toNat ≤ 0x9F)

/-- The characters at which a word ends: white space, NUL and the marks of the language. -/
def isDelimiter (c : Char) : Bool :=
  isWhitespace c || c == '\x00' || c == '(' || c == ')' || c == ':' || c == ';' || c == '"'

/-- A character that continues a word. -/
def isWordCharacter (c : Char) : Bool := !isDelimiter c

end ObjectLisp.Text
