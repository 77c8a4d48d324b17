import ObjectLisp.Text.Combining
import ObjectLisp.Text.Unprintable

/-!
# Text made visible

`escape` spells one character as an escape, and `quote` writes a text between double quotes with an
escape in place of each character that would not show or would change its neighbour.
-/

namespace ObjectLisp.Text

/-- A code point as an escape with lower-case hexadecimal digits and no padding. -/
def hexEscape (c : Char) : String :=
  "\\u\x7b" ++ String.ofList (Nat.toDigits 16 c.toNat) ++ "\x7d"

/-- A character as an escape: short for NUL, the tab and the line ends, hexadecimal for the
rest. -/
def escape (c : Char) : String :=
  if c == '\x00' then "\\0"
  else if c == '\t' then "\\t"
  else if c == '\n' then "\\n"
  else if c == '\r' then "\\r"
  else hexEscape c

/-- A character inside a quoted text: a quote or a backslash after a backslash, an unprintable or
combining character as an escape, any other as it is. -/
def quoteCharacter (c : Char) : String :=
  if c == '"' then "\\\""
  else if c == '\\' then "\\\\"
  else if isUnprintable c || isCombining c then escape c
  else c.toString

/-- A text between double quotes. -/
def quote (s : String) : String :=
  "\"" ++ String.join (s.toList.map quoteCharacter) ++ "\""

end ObjectLisp.Text
