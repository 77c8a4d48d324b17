import ObjectLisp.Error
import ObjectLisp.Text.Character

/-!
# From characters to tokens

`tokenize` splits a source into tokens and ends them with an end-of-input token. White space and
comments separate tokens. Parentheses and the colon are tokens by themselves, and every other
token is a *word*, a longest run of characters that are no delimiters. What a word means depends
on how it begins: a digit, or a minus sign before a digit, makes it a number, and then the whole
word has to be one.
-/

namespace ObjectLisp.Lexer

/-! ## Words -/

/-- Whether a word has to be a number. -/
def startsNumber : List Char → Bool
  | '-' :: c :: _ => c.isDigit
  | c :: _ => c.isDigit
  | [] => false

/-- The kind of a word that is no number: one of three reserved words, or a name. -/
def nameKind (word : String) : TokenKind :=
  if word = "true" then .bool true
  else if word = "false" then .bool false
  else if word = "null" then .null
  else .identifier word

/-- The kind of a word. -/
def wordKind (word : List Char) : Except Fault TokenKind :=
  if startsNumber word then
    match Number.ofChars? word with
    | some x => .ok (.number x)
    | none => .error (.malformedNumber (String.ofList word))
  else .ok (nameKind (String.ofList word))

/-- The kind of a token that is one character long whatever follows. -/
def markKind? (c : Char) : Option TokenKind :=
  if c == '(' then some .leftParen
  else if c == ')' then some .rightParen
  else if c == ':' then some .colon
  else none

/-- The fault of a character that cannot begin a token. -/
def badStart? (c : Char) : Option Fault :=
  if c == '"' then some .stringLiteral
  else if Text.isControl c then some (.unexpectedCharacter c)
  else none

/-! ## Sources -/

/-- Whether a character belongs to the comment that was begun before it. -/
def inComment (c : Char) : Bool := c != '\n'

/-- The tokens of the characters that begin at `p`. -/
def tokensFrom (p : Position) : List Char → Except ReadError (List Token)
  | [] => .ok [⟨.endOfInput, "", p⟩]
  | c :: cs =>
    if Text.isWhitespace c then tokensFrom (p.after c) cs
    else if c == ';' then
      tokensFrom (p.right (1 + (cs.takeWhile inComment).length)) (cs.dropWhile inComment)
    else
      match markKind? c with
      | some kind => (⟨kind, c.toString, p⟩ :: ·) <$> tokensFrom (p.right 1) cs
      | none =>
        match badStart? c with
        | some fault => .error (.fault p fault)
        | none =>
          let word := c :: cs.takeWhile Text.isWordCharacter
          match wordKind word with
          | .error fault => .error (.fault p fault)
          | .ok kind =>
            (⟨kind, String.ofList word, p⟩ :: ·) <$>
              tokensFrom (p.right word.length) (cs.dropWhile Text.isWordCharacter)
termination_by cs => cs.length
decreasing_by
  all_goals simp only [List.length_cons, Nat.lt_succ_iff]
  all_goals first
    | exact Nat.le_refl _
    | exact (List.dropWhile_sublist _).length_le

/-- The tokens of a source. -/
def tokenize (source : String) : Except ReadError (List Token) :=
  tokensFrom .start source.toList

end ObjectLisp.Lexer
