import ObjectLisp.Number.Decimal

/-!
# Data documents

Tokens and programs can be written as documents of nested lists and records, and read back.
`ObjectLisp.Data.Token` and `ObjectLisp.Data.Program` say how. A document holds two kinds of
number: natural numbers, which count, and floats. A float may be written without a fraction and
then arrives as a natural number, so a float is read from either; a count is read from a natural
number only.

What is read is the tree of a document that has already been parsed: the text it was written as, its
escapes and a limit on its nesting belong to the parser of that text and have no place here. Of
variants with several parts, each part has a name, and only a record of these names is read, never a
list in their order; the two exceptions are a token and a whole program, which may also be lists of
their parts. The names in a record are taken to be different; the first one counts.

Reading is exact: nothing is converted, except that unknown fields of a record are passed over.
-/

namespace ObjectLisp

/-- A document. -/
inductive Data where
  | null
  | bool (b : Bool)
  | natural (n : Nat)
  | float (x : Float)
  | text (s : String)
  | list (items : List Data)
  | record (fields : List (String × Data))

namespace Data

/-! ## Writing -/

/-- A number; one that is infinite or undefined cannot be written and becomes null. -/
def ofFloat (x : Float) : Data := if Number.isFinite x then float x else null

/-- A list of texts. -/
def ofTexts (texts : List String) : Data := list (texts.map text)

/-- A variant of a type with several, and what it holds. -/
def variant (tag : String) (content : Data) : Data := record [(tag, content)]

/-! ## Reading -/

/-- The text of a document that is one. -/
def text? : Data → Option String
  | text s => some s
  | _ => none

/-- The truth value of a document that is one. -/
def bool? : Data → Option Bool
  | bool b => some b
  | _ => none

/-- The natural number of a document that is one. -/
def natural? : Data → Option Nat
  | natural n => some n
  | _ => none

/-- The float of a document that is a number. -/
def float? : Data → Option Float
  | natural n => some (Number.Decimal.toFloat ⟨n, 0⟩ false)
  | float x => some x
  | _ => none

/-- Read every item of a list, or nothing. -/
def all? {α β : Type} (read : α → Option β) : List α → Option (List β)
  | [] => some []
  | a :: rest =>
    match read a, all? read rest with
    | some b, some bs => some (b :: bs)
    | _, _ => none

/-- The texts of a document that is a list of texts. -/
def texts? : Data → Option (List String)
  | list items => all? text? items
  | _ => none

/-- The items of a document that is a list. They are smaller than the document. -/
def items? : (d : Data) → Option { items : List Data // sizeOf items < sizeOf d }
  | list items => some ⟨items, by simp only [list.sizeOf_spec]; omega⟩
  | _ => none

/-- The field of a name, which is smaller than the record. -/
def field? (name : String) : (fields : List (String × Data)) →
    Option { d : Data // sizeOf d < sizeOf fields }
  | [] => none
  | (key, d) :: rest =>
    if key = name then some ⟨d, by simp only [List.cons.sizeOf_spec, Prod.mk.sizeOf_spec]; omega⟩
    else
      (field? name rest).map fun e =>
        ⟨e.1, by have := e.2; simp only [List.cons.sizeOf_spec]; omega⟩

end Data

end ObjectLisp
